import Mathlib.Data.List.Forall2
import E2Mail.Lib.Unwinding
import E2Mail.Backend.AddressBook

/-!
# What a cold database shows

Someone who has the database file and no key sees the plaintext columns. Two runs of the address
book that differ in addresses, names and notes alone should leave them equal. They do, but for
the path that an avatar upload stores: it is made of the owner's address.

* `CallsAlike` — the same request, for another owner and other contacts.
* `StateAlike` — two databases with the same rows up to addresses, names and notes.
* `Stores` — an avatar upload that stores its path.
* `plaintext_eq_iff` — the plaintext columns stay equal exactly as long as the stored paths are.
-/

namespace E2Mail.Backend.AddressBook

open Lib

/-! ## Two runs -/

/-- The plaintext columns of a row, other than the random id and the hashes. -/
structure PlainColumns where
  avatarPath : String
  createdAt : Nat
  updatedAt : Nat
  deriving DecidableEq

def ContactRow.plain (r : ContactRow) : PlainColumns := ⟨r.avatarPath, r.createdAt, r.updatedAt⟩

/-- The plaintext columns of the table. -/
def plaintext (w : BookState) : List PlainColumns := w.contacts.rows.map ContactRow.plain

/-- Addresses of one run and those in their place in the other: the same ones stay the same. -/
structure Renames (R : String → String → Prop) : Prop where
  empty : ∀ {a b}, R a b → (a = "" ↔ b = "")
  unique : ∀ {a b a' b'}, R a b → R a' b' → (a = a' ↔ b = b')

/-- What is used of `unicode.ToLower`. -/
structure LowerCase (P : Params) : Prop where
  idem : ∀ c, P.toLower (P.toLower c) = P.toLower c
  space : ∀ c, isSpace (P.toLower c) = isSpace c

section Alike

variable (P : Params) (M : Outside) (O R : String → String → Prop)

/-- The address parses. -/
def Outside.Parses (e : String) : Prop := ∃ addr, M.parseAddress e = .ok addr

/-- The address that `CreateFromEmail` stores. -/
def fromAddress (e : String) : String :=
  match M.parseAddress e with
  | .error _ => P.normalizeEmail e
  | .ok addr => P.normalizeEmail addr.address

/-- One address in the place of another: both parse or neither. -/
structure AddressAlike (e e' : String) : Prop where
  renamed : R (P.normalizeEmail e) (P.normalizeEmail e')
  parses : M.Parses (P.normalizeEmail e) ↔ M.Parses (P.normalizeEmail e')

/-- The same request but for the contacts' addresses, names and notes. -/
inductive RequestAlike : BookRequest → BookRequest → Prop where
  | createError (e : BodyErr) : RequestAlike (.create (.error e)) (.create (.error e))
  | create {r r' : CreateContactRequest} (h : AddressAlike P M R r.email r'.email)
      (hraw : M.Parses r.email ↔ M.Parses r'.email) (hsource : r.source = r'.source) :
      RequestAlike (.create (.ok r)) (.create (.ok r'))
  | updateError (id : String) (clearNote : Bool) (e : BodyErr) :
      RequestAlike (.update id clearNote (.error e)) (.update id clearNote (.error e))
  | update (id : String) (clearNote : Bool) {r r' : UpdateContactRequest}
      (hempty : r.email = "" ↔ r'.email = "")
      (h : r.email ≠ "" → AddressAlike P M R r.email r'.email) :
      RequestAlike (.update id clearNote (.ok r)) (.update id clearNote (.ok r'))
  | delete (id : String) : RequestAlike (.delete id) (.delete id)
  | fromEmailError (e : BodyErr) : RequestAlike (.fromEmail (.error e)) (.fromEmail (.error e))
  | fromEmail {r r' : FromEmailRequest}
      (h : R (P.normalizeEmail r.email) (P.normalizeEmail r'.email))
      (hfrom : R (fromAddress P M r.email) (fromAddress P M r'.email)) :
      RequestAlike (.fromEmail (.ok r)) (.fromEmail (.ok r'))
  | importSame (mode : String) {file : ImportFile} (h : ∀ l, file ≠ .items l) :
      RequestAlike (.importFile mode file) (.importFile mode file)
  | importFile (mode : String) {l l' : List ImpItem}
      (h : List.Forall₂ (fun it it' => AddressAlike P M R it.email it'.email) l l') :
      RequestAlike (.importFile mode (.items l)) (.importFile mode (.items l'))
  | putAvatar (id : String) (form : AvatarForm) :
      RequestAlike (.putAvatar id form) (.putAvatar id form)
  | deleteAvatar (id : String) : RequestAlike (.deleteAvatar id) (.deleteAvatar id)

/-- The same request of a logged-in owner, for another owner and other contacts. -/
structure CallsAlike (c c' : BookCall) : Prop where
  around : c.around = c'.around
  sessions : ∃ s s', c.sess? = some s ∧ c'.sess? = some s' ∧ (s.email = "" ↔ s'.email = "") ∧
    O (P.normalizeEmail s.email) (P.normalizeEmail s'.email) ∧ s.dek = s'.dek
  request : RequestAlike P M R c.req c'.req

end Alike

/-- The request stores an avatar path: it is an upload of an allowed image, for a contact that the
owner has and that can be read, and nothing fails. -/
def Stores (P : Params) (M : Outside) (c : BookCall) (w : BookState) (path : String) : Prop :=
  ∃ id form owner dek contact ext, c.req = .putAvatar id form ∧
    ownerFromCtx P c.sess? = some (owner, dek) ∧ owner ≠ "" ∧ contact.id ≠ "" ∧
    Store.getAddressContact P c.around owner id dek w = .ok (some contact) ∧
    form.ext M = .ok ext ∧ c.around.mkdirErr = none ∧ c.around.writeErr = none ∧
    c.around.execErr 0 = none ∧ path = avatarPath P owner contact.id ext

/-- A fresh database. -/
def BookState.fresh : BookState := ⟨ContactTable.empty, 0, 0⟩

/-! ## Normal forms -/

section Normal

variable {P : Params}

theorem trimSpace_toList (s : String) : (trimSpace s).toList = Text.trimBy isSpace s.toList := by
  rw [trimSpace, String.toList_ofList, Text.trimBy]

/-- A map that keeps the spaces can be applied before the trimming. -/
theorem trimBy_map {p : Char → Bool} {f : Char → Char} (hf : ∀ c, p (f c) = p c) (s : List Char) :
    Text.trimBy p (s.map f) = (Text.trimBy p s).map f := by
  have hcomp : p ∘ f = p := funext hf
  rw [Text.trimBy, Text.trimBy, List.dropWhile_map, hcomp, ← List.map_reverse, List.dropWhile_map,
    hcomp, List.map_reverse]

/-- **Normal forms are normal.** -/
theorem LowerCase.normalizeEmail_idem (hP : LowerCase P) (s : String) :
    P.normalizeEmail (P.normalizeEmail s) = P.normalizeEmail s := by
  have hlist : ∀ s : String, (P.normalizeEmail s).toList =
      (Text.trimBy isSpace s.toList).map P.toLower := by
    intro s
    rw [Params.normalizeEmail, Params.lower, String.toList_ofList, trimSpace_toList]
  refine String.toList_inj.mp ?_
  rw [hlist, hlist, trimBy_map hP.space, Text.trimBy_trimBy, List.map_map]
  exact List.map_congr_left fun c _ => hP.idem c

end Normal

/-! ## Text columns -/

/-- `wrapField`, where it succeeds. -/
def sealText (k nonce : Nat) (s : String) : Secret :=
  if s = "" then .plain "" else .sealed ⟨.dek k, nonce, s⟩

/-- `wrapFields`, where it succeeds. -/
def Columns.seal (k nonce : Nat) (t : Columns String) : Columns Secret :=
  ⟨sealText k nonce t.email, sealText k (nonce + 1) t.displayName,
    sealText k (nonce + 2) t.givenName, sealText k (nonce + 3) t.familyName,
    sealText k (nonce + 4) t.note, sealText k (nonce + 5) t.source⟩

theorem wrapField_some (k nonce : Nat) (s : String) :
    wrapField (some k) nonce s = .ok (sealText k nonce s) := by
  rw [wrapField, sealText]
  split <;> rfl

theorem wrapFields_some (k nonce : Nat) (t : Columns String) :
    wrapFields (some k) nonce t = .ok (t.seal k nonce) := by
  simp only [wrapFields, wrapField_some]
  rfl

theorem wrapField_none {nonce : Nat} {s : String} : wrapField none nonce s =
    if s = "" then .ok (.plain "") else .error { text := "dek required" } := rfl

theorem bind_eq_ok {ε α β : Type} {x : Except ε α} {f : α → Except ε β} {b : β}
    (h : (x >>= f) = .ok b) : ∃ a, x = .ok a ∧ f a = .ok b := by
  cases x with
  | error e => cases h
  | ok a => exact ⟨a, rfl, h⟩

/-- Without a key nothing is wrapped that has a text in it. -/
theorem wrapFields_none (nonce : Nat) {t : Columns String} (ht : t.source ≠ "") :
    ∃ e, wrapFields none nonce t = .error e := by
  rcases h : wrapFields none nonce t with e | x
  · exact ⟨e, rfl⟩
  obtain ⟨_, -, h⟩ := bind_eq_ok h
  obtain ⟨_, -, h⟩ := bind_eq_ok h
  obtain ⟨_, -, h⟩ := bind_eq_ok h
  obtain ⟨_, -, h⟩ := bind_eq_ok h
  obtain ⟨_, -, h⟩ := bind_eq_ok h
  obtain ⟨_, hsource, -⟩ := bind_eq_ok h
  rw [wrapField_none, if_neg ht] at hsource
  cases hsource

theorem unwrapField_seal (k nonce : Nat) (s : String) :
    unwrapField (some k) (sealText k nonce s) = .ok s := by
  rw [sealText]
  split
  · rename_i hs
    rw [hs]
    rfl
  · simp [unwrapField]

theorem unwrapFields_seal (k nonce : Nat) (t : Columns String) :
    unwrapFields (some k) (t.seal k nonce) = .ok t := by
  simp only [unwrapFields, Columns.seal, unwrapField_seal]
  rfl

theorem unwrapField_ne {dek : Option Nat} {k nonce : Nat} {s : String} (hdek : dek ≠ some k)
    (hs : s ≠ "") : ∃ e, unwrapField dek (sealText k nonce s) = .error e := by
  rw [sealText, if_neg hs]
  rcases dek with _ | k'
  · exact ⟨_, rfl⟩
  · have hne : k ≠ k' := fun h => hdek (h ▸ rfl)
    simp [unwrapField, Box.decrypt, hne]

/-- Another key does not unwrap a row. -/
theorem unwrapFields_ne {dek : Option Nat} {k : Nat} (nonce : Nat) {t : Columns String}
    (hdek : dek ≠ some k) (ht : t.source ≠ "") :
    ∃ e, unwrapFields dek (t.seal k nonce) = .error e := by
  rcases h : unwrapFields dek (t.seal k nonce) with e | x
  · exact ⟨e, rfl⟩
  obtain ⟨_, -, h⟩ := bind_eq_ok h
  obtain ⟨_, -, h⟩ := bind_eq_ok h
  obtain ⟨_, -, h⟩ := bind_eq_ok h
  obtain ⟨_, -, h⟩ := bind_eq_ok h
  obtain ⟨_, -, h⟩ := bind_eq_ok h
  obtain ⟨_, hsource, -⟩ := bind_eq_ok h
  obtain ⟨e, he⟩ := unwrapField_ne hdek ht
  rw [Columns.seal, he] at hsource
  cases hsource

/-! ## Databases alike -/

/-- Texts that may stand in one another's place. -/
structure TextsAlike (P : Params) (R : String → String → Prop) (t t' : Columns String) : Prop where
  email : R t.email t'.email
  normal : P.normalizeEmail t.email = t.email ∧ P.normalizeEmail t'.email = t'.email
  source : t.source ≠ "" ∧ t'.source ≠ ""

/-- Rows that differ in addresses, names and notes, with their avatar paths in relation `A`. -/
structure RowAlike (P : Params) (O R A : String → String → Prop) (r r' : ContactRow) : Prop where
  id : r.id = r'.id
  created : r.createdAt = r'.createdAt
  updated : r.updatedAt = r'.updatedAt
  path : A r.avatarPath r'.avatarPath
  owner : O r.ownerID.text r'.ownerID.text
  texts : ∃ k n n' t t', r.columns = t.seal k n ∧ r'.columns = t'.seal k n' ∧ TextsAlike P R t t' ∧
    r.emailHash = ⟨t.email⟩ ∧ r'.emailHash = ⟨t'.email⟩

/-- Databases whose rows differ in addresses, names and notes. -/
structure StateAlike (P : Params) (O R A : String → String → Prop) (w w' : BookState) : Prop where
  rows : List.Forall₂ (RowAlike P O R A) w.contacts.rows w'.contacts.rows
  uuids : w.uuids = w'.uuids

/-- A relation of avatar paths that tells a path from none. -/
structure TellsPaths (A : String → String → Prop) : Prop where
  empty : A "" ""
  eq_empty : ∀ {p p'}, A p p' → (p = "" ↔ p' = "")

/-- Owners of the two runs, as `ownerFromCtx` hands them on. -/
structure OwnersAlike (P : Params) (O : String → String → Prop) (o o' : String) : Prop where
  renamed : O o o'
  normal : P.normalizeEmail o = o ∧ P.normalizeEmail o' = o'

/-- Contacts as read from rows alike. -/
structure ContactsAlike (P : Params) (R A : String → String → Prop) (c c' : Contact) : Prop where
  id : c.id = c'.id
  path : A c.avatarPath c'.avatarPath
  texts : TextsAlike P R c.columns c'.columns

section Lists

variable {α β : Type} {S : α → β → Prop} {l : List α} {l' : List β} {p : α → Bool} {q : β → Bool}

/-- A search in lists in relation finds elements in relation. -/
theorem find?_forall₂ (h : List.Forall₂ S l l') (hpq : ∀ {a b}, S a b → (p a = true ↔ q b = true)) :
    (l.find? p = none ∧ l'.find? q = none) ∨
      ∃ a b, l.find? p = some a ∧ l'.find? q = some b ∧ S a b := by
  induction h with
  | nil => exact .inl ⟨rfl, rfl⟩
  | @cons a b l l' hab _ ih =>
    by_cases hp : p a = true
    · exact .inr ⟨a, b, List.find?_cons_of_pos hp, List.find?_cons_of_pos ((hpq hab).mp hp), hab⟩
    · rw [List.find?_cons_of_neg hp, List.find?_cons_of_neg fun hq => hp ((hpq hab).mpr hq)]
      exact ih

theorem countP_forall₂ (h : List.Forall₂ S l l') (hpq : ∀ {a b}, S a b → (p a = true ↔ q b = true)) :
    l.countP p = l'.countP q := by
  rw [List.countP_eq_length_filter, List.countP_eq_length_filter]
  exact (List.rel_filter (fun a b hab => hpq hab) h).length_eq

end Lists

section Databases

variable {P : Params} {M : Outside} {O R A : String → String → Prop} {o o' : String}
  {w w' : BookState} {dek : Option Nat} {E : Around}

theorem OwnersAlike.text (ho : OwnersAlike P O o o') :
    (cryptoOwnerID P o).text = o ∧ (cryptoOwnerID P o').text = o' := ho.normal

theorem OwnersAlike.digests (ho : OwnersAlike P O o o') :
    O (cryptoOwnerID P o).text (cryptoOwnerID P o').text := by
  rw [ho.text.1, ho.text.2]
  exact ho.renamed

/-- The row is of the one owner as its counterpart is of the other. -/
theorem RowAlike.owner_iff {r r' : ContactRow} (hO : Renames O) (ho : OwnersAlike P O o o')
    (h : RowAlike P O R A r r') :
    r.ownerID = cryptoOwnerID P o ↔ r'.ownerID = cryptoOwnerID P o' := by
  have hunique := hO.unique h.owner ho.renamed
  have hid : ∀ {d : Digest} {o : String}, P.normalizeEmail o = o →
      (d = cryptoOwnerID P o ↔ d.text = o) := by
    intro d o hnormal
    obtain ⟨text⟩ := d
    rw [cryptoOwnerID, Digest.mk.injEq]
    change text = P.normalizeEmail o ↔ _
    rw [hnormal]
  rw [hid ho.normal.1, hid ho.normal.2]
  exact hunique

theorem RowAlike.hash_iff {r r' : ContactRow} (hR : Renames R) {e e' : String} (he : R e e')
    (hnormal : P.normalizeEmail e = e ∧ P.normalizeEmail e' = e') (h : RowAlike P O R A r r') :
    r.emailHash = emailIndex P (P.normalizeEmail e) ↔
      r'.emailHash = emailIndex P (P.normalizeEmail e') := by
  obtain ⟨_, _, _, t, t', -, -, ht, hhash, hhash'⟩ := h.texts
  have hindex : ∀ {e : String}, P.normalizeEmail e = e →
      emailIndex P (P.normalizeEmail e) = ⟨e⟩ := by
    intro e hnormal
    rw [hnormal, emailIndex, cryptoOwnerID]
    exact congrArg Digest.mk hnormal
  rw [hindex hnormal.1, hindex hnormal.2, hhash, hhash', Digest.mk.injEq, Digest.mk.injEq]
  exact hR.unique ht.email he

/-- Rows alike are both readable or neither. -/
theorem scanAddressContact_alike {r r' : ContactRow} (h : RowAlike P O R A r r') (o o' : String)
    (dek : Option Nat) :
    (∃ e e', scanAddressContact o dek r = .error e ∧ scanAddressContact o' dek r' = .error e') ∨
    ∃ c c', scanAddressContact o dek r = .ok c ∧ scanAddressContact o' dek r' = .ok c' ∧
      ContactsAlike P R A c c' ∧ c.id = r.id ∧ c.ownerEmail = o ∧ c'.ownerEmail = o' := by
  obtain ⟨k, n, n', t, t', hcols, hcols', ht, -⟩ := h.texts
  unfold scanAddressContact
  rw [hcols, hcols']
  by_cases hdek : dek = some k
  · subst hdek
    rw [unwrapFields_seal, unwrapFields_seal]
    exact .inr ⟨_, _, rfl, rfl, ⟨h.id, h.path, ht⟩, rfl, rfl, rfl⟩
  · obtain ⟨e, he⟩ := unwrapFields_ne n hdek ht.source.1
    obtain ⟨e', he'⟩ := unwrapFields_ne n' hdek ht.source.2
    rw [he, he']
    exact .inl ⟨_, _, rfl, rfl⟩

/-- `GetAddressContact` in the two runs. -/
theorem getAddressContact_alike (hO : Renames O) (ho : OwnersAlike P O o o')
    (h : StateAlike P O R A w w') (id : String) (dek : Option Nat) :
    (∃ e e', Store.getAddressContact P E o id dek w = .error e ∧
      Store.getAddressContact P E o' id dek w' = .error e') ∨
    (Store.getAddressContact P E o id dek w = .ok none ∧
      Store.getAddressContact P E o' id dek w' = .ok none) ∨
    ∃ c c', Store.getAddressContact P E o id dek w = .ok (some c) ∧
      Store.getAddressContact P E o' id dek w' = .ok (some c') ∧ ContactsAlike P R A c c' ∧
      c.id = id ∧ c.ownerEmail = o ∧ c'.ownerEmail = o' := by
  unfold Store.getAddressContact
  rcases E.getErr with _ | e
  case some => exact .inl ⟨_, _, rfl, rfl⟩
  have hfind := find?_forall₂ h.rows (p := fun r => r.ownerID = cryptoOwnerID P o ∧ r.id = id)
    (q := fun r => r.ownerID = cryptoOwnerID P o' ∧ r.id = id) (by
      intro r r' hr
      simp only [decide_eq_true_eq]
      rw [hr.owner_iff hO ho, hr.id])
  obtain ⟨hnone, hnone'⟩ | ⟨r, r', hr, hr', halike⟩ := hfind
  · rw [hnone, hnone']
    exact .inr (.inl ⟨rfl, rfl⟩)
  · have hid : r.ownerID = cryptoOwnerID P o ∧ r.id = id := by simpa using List.find?_some hr
    rw [hr, hr']
    dsimp only
    obtain ⟨e, e', he, he'⟩ | ⟨c, c', hc, hc', hcc, hcid, hown, hown'⟩ :=
      scanAddressContact_alike halike o o' dek
    · rw [he, he']
      exact .inl ⟨_, _, rfl, rfl⟩
    · rw [hc, hc']
      exact .inr (.inr ⟨c, c', rfl, rfl, hcc, hcid.trans hid.2, hown, hown'⟩)

/-- `GetAddressContactByEmail` in the two runs. -/
theorem getAddressContactByEmail_alike (hO : Renames O) (hR : Renames R)
    (ho : OwnersAlike P O o o') (h : StateAlike P O R A w w') {e e' : String} (he : R e e')
    (hnormal : P.normalizeEmail e = e ∧ P.normalizeEmail e' = e') (k : Nat) (dek : Option Nat) :
    (Store.getAddressContactByEmail P E k o e dek w = none ∧
      Store.getAddressContactByEmail P E k o' e' dek w' = none) ∨
    ∃ c c', Store.getAddressContactByEmail P E k o e dek w = some c ∧
      Store.getAddressContactByEmail P E k o' e' dek w' = some c' ∧
      ContactsAlike P R A c c' ∧ c.ownerEmail = o ∧ c'.ownerEmail = o' := by
  unfold Store.getAddressContactByEmail
  split
  · exact .inl ⟨rfl, rfl⟩
  have hfind := find?_forall₂ h.rows
    (p := fun r => r.ownerID = cryptoOwnerID P o ∧ r.emailHash = emailIndex P (P.normalizeEmail e))
    (q := fun r => r.ownerID = cryptoOwnerID P o' ∧
      r.emailHash = emailIndex P (P.normalizeEmail e')) (by
      intro r r' hr
      simp only [decide_eq_true_eq]
      rw [hr.owner_iff hO ho, hr.hash_iff hR he hnormal])
  obtain ⟨hnone, hnone'⟩ | ⟨r, r', hr, hr', halike⟩ := hfind
  · rw [hnone, hnone']
    exact .inl ⟨rfl, rfl⟩
  · rw [hr, hr']
    dsimp only
    obtain ⟨e, e', he, he'⟩ | ⟨c, c', hc, hc', hcc, -, hown, hown'⟩ :=
      scanAddressContact_alike halike o o' dek
    · rw [he, he']
      exact .inl ⟨rfl, rfl⟩
    · rw [hc, hc']
      exact .inr ⟨c, c', rfl, rfl, hcc, hown, hown'⟩

/-- `CountAddressContacts` in the two runs. -/
theorem countAddressContacts_alike (hO : Renames O) (ho : OwnersAlike P O o o')
    (h : StateAlike P O R A w w') :
    Store.countAddressContacts P E o w = Store.countAddressContacts P E o' w' := by
  unfold Store.countAddressContacts
  split
  · rfl
  · refine countP_forall₂ h.rows fun hr => ?_
    simp only [decide_eq_true_eq]
    exact hr.owner_iff hO ho

/-! ## Writes in the two runs -/

/-- The keys of the one table in the place of those of the other. -/
def KeysAlike (O R : String → String → Prop) (k k' : Digest × Digest) : Prop :=
  O k.1.text k'.1.text ∧ R k.2.text k'.2.text

theorem keysAlike_biUnique (hO : Renames O) (hR : Renames R) :
    Relator.BiUnique (KeysAlike O R) := by
  constructor
  · rintro ⟨⟨a⟩, ⟨b⟩⟩ ⟨⟨c⟩, ⟨d⟩⟩ ⟨⟨a'⟩, ⟨b'⟩⟩ ⟨hac, hbd⟩ ⟨hac', hbd'⟩
    obtain rfl := (hO.unique hac hac').mpr rfl
    obtain rfl := (hR.unique hbd hbd').mpr rfl
    rfl
  · rintro ⟨⟨a⟩, ⟨b⟩⟩ ⟨⟨c⟩, ⟨d⟩⟩ ⟨⟨a'⟩, ⟨b'⟩⟩ ⟨hac, hbd⟩ ⟨hac', hbd'⟩
    obtain rfl := (hO.unique hac hac').mp rfl
    obtain rfl := (hR.unique hbd hbd').mp rfl
    rfl

theorem RowAlike.keys {r r' : ContactRow} (h : RowAlike P O R A r r') :
    KeysAlike O R r.key r'.key := by
  obtain ⟨_, _, _, t, t', -, -, ht, hhash, hhash'⟩ := h.texts
  refine ⟨h.owner, ?_⟩
  rw [ContactRow.key, ContactRow.key, hhash, hhash']
  exact ht.email

theorem keys_forall₂ {rows rows' : List ContactRow} (h : List.Forall₂ (RowAlike P O R A) rows rows') :
    List.Forall₂ (KeysAlike O R) (rows.map ContactRow.key) (rows'.map ContactRow.key) := by
  rw [List.forall₂_map_left_iff, List.forall₂_map_right_iff]
  exact h.imp fun _ _ hr => hr.keys

theorem ids_forall₂ {rows rows' : List ContactRow} (h : List.Forall₂ (RowAlike P O R A) rows rows') :
    rows.map ContactRow.id = rows'.map ContactRow.id := by
  rw [← List.forall₂_eq_eq_eq, List.forall₂_map_left_iff, List.forall₂_map_right_iff]
  exact h.imp fun _ _ hr => hr.id

/-- An insertion in the two tables. -/
theorem insert_alike (hO : Renames O) (hR : Renames R) {t t' : ContactTable} {r r' : ContactRow}
    (h : List.Forall₂ (RowAlike P O R A) t.rows t'.rows) (hr : RowAlike P O R A r r') :
    (∃ e e', t.insert r = .error e ∧ t'.insert r' = .error e') ∨
    ∃ u u', t.insert r = .ok u ∧ t'.insert r' = .ok u' ∧
      List.Forall₂ (RowAlike P O R A) u.rows u'.rows := by
  have hids : r.id ∈ t.rows.map ContactRow.id ↔ r'.id ∈ t'.rows.map ContactRow.id := by
    rw [ids_forall₂ h, hr.id]
  have hkeys := List.rel_mem (keysAlike_biUnique hO hR) hr.keys (keys_forall₂ h)
  unfold ContactTable.insert
  by_cases hid : r.id ∈ t.rows.map ContactRow.id
  · rw [dif_pos hid, dif_pos (hids.mp hid)]
    exact .inl ⟨_, _, rfl, rfl⟩
  rw [dif_neg hid, dif_neg fun h => hid (hids.mpr h)]
  by_cases hkey : r.key ∈ t.rows.map ContactRow.key
  · rw [dif_pos hkey, dif_pos (hkeys.mp hkey)]
    exact .inl ⟨_, _, rfl, rfl⟩
  rw [dif_neg hkey, dif_neg fun h => hkey (hkeys.mpr h)]
  exact .inr ⟨_, _, rfl, rfl, List.rel_append h (.cons hr .nil)⟩

/-- The rows an update writes in the two tables. -/
theorem written_alike (hO : Renames O) (ho : OwnersAlike P O o o') {rows rows' : List ContactRow}
    (h : List.Forall₂ (RowAlike P O R A) rows rows') (id : String) {path path' : String}
    (now k n n' : Nat) {t t' : Columns String} (ht : TextsAlike P R t t') (hpath : A path path') :
    List.Forall₂ (RowAlike P O R A)
      (ContactTable.written (cryptoOwnerID P o) id ⟨t.email⟩ (t.seal k n) path now rows)
      (ContactTable.written (cryptoOwnerID P o') id ⟨t'.email⟩ (t'.seal k n') path' now rows') := by
  rw [ContactTable.written, ContactTable.written, List.forall₂_map_left_iff,
    List.forall₂_map_right_iff]
  refine h.imp fun r r' hr => ?_
  have hiff : r.ownerID = cryptoOwnerID P o ∧ r.id = id ↔
      r'.ownerID = cryptoOwnerID P o' ∧ r'.id = id := by
    rw [hr.owner_iff hO ho, hr.id]
  by_cases hmine : r.ownerID = cryptoOwnerID P o ∧ r.id = id
  · rw [if_pos hmine, if_pos (hiff.mp hmine)]
    exact ⟨hr.id, hr.created, rfl, hpath, hr.owner, k, n, n', t, t', rfl, rfl, ht, rfl, rfl⟩
  · rw [if_neg hmine, if_neg fun h => hmine (hiff.mpr h)]
    exact hr

/-- An update in the two tables. -/
theorem update_alike (hO : Renames O) (hR : Renames R) (ho : OwnersAlike P O o o')
    {u u' : ContactTable} (h : List.Forall₂ (RowAlike P O R A) u.rows u'.rows) (id : String)
    {path path' : String} (now k n n' : Nat) {t t' : Columns String} (ht : TextsAlike P R t t')
    (hpath : A path path') :
    (∃ e e', u.update (cryptoOwnerID P o) id ⟨t.email⟩ (t.seal k n) path now = .error e ∧
      u'.update (cryptoOwnerID P o') id ⟨t'.email⟩ (t'.seal k n') path' now = .error e') ∨
    ∃ m v v', u.update (cryptoOwnerID P o) id ⟨t.email⟩ (t.seal k n) path now = .ok (m, v) ∧
      u'.update (cryptoOwnerID P o') id ⟨t'.email⟩ (t'.seal k n') path' now = .ok (m, v') ∧
      List.Forall₂ (RowAlike P O R A) v.rows v'.rows := by
  have hwritten := written_alike hO ho h id now k n n' ht hpath
  have hkeys := List.rel_nodup (keysAlike_biUnique hO hR) (keys_forall₂ hwritten)
  have hcount : u.rows.countP (fun r => r.ownerID = cryptoOwnerID P o ∧ r.id = id) =
      u'.rows.countP fun r => r.ownerID = cryptoOwnerID P o' ∧ r.id = id := by
    refine countP_forall₂ h fun hr => ?_
    simp only [decide_eq_true_eq]
    rw [hr.owner_iff hO ho, hr.id]
  unfold ContactTable.update
  by_cases hnodup : ((ContactTable.written (cryptoOwnerID P o) id ⟨t.email⟩ (t.seal k n) path now
      u.rows).map ContactRow.key).Nodup
  · rw [dif_pos hnodup, dif_pos (hkeys.mp hnodup), hcount]
    exact .inr ⟨_, _, _, rfl, rfl, hwritten⟩
  · rw [dif_neg hnodup, dif_neg fun h => hnodup (hkeys.mpr h)]
    exact .inl ⟨_, _, rfl, rfl⟩

/-- The two calls end alike: both well or both with an error, in databases alike. -/
def EndAlike {α β : Type} (P : Params) (O R A : String → String → Prop)
    (x : Res α × BookState) (y : Res β × BookState) : Prop :=
  x.1.isOk = y.1.isOk ∧ StateAlike P O R A x.2 y.2

theorem StateAlike.nonces (h : StateAlike P O R A w w') (n n' : Nat) :
    StateAlike P O R A { w with nonces := n } { w' with nonces := n' } := ⟨h.rows, h.uuids⟩

/-- The hash column of a normal address. -/
theorem emailIndex_normal {e : String} (h : P.normalizeEmail e = e) : emailIndex P e = ⟨e⟩ :=
  congrArg Digest.mk h

/-- `CreateAddressContact` in the two runs. -/
theorem createAddressContact_alike (hO : Renames O) (hR : Renames R) (hA : TellsPaths A)
    (ho : OwnersAlike P O o o') (h : StateAlike P O R A w w') (k : Nat) (dek : Option Nat)
    {id : String} {t t' : Columns String} (hemail : R t.email t'.email)
    (hnormal : P.normalizeEmail t.email = t.email ∧ P.normalizeEmail t'.email = t'.email) :
    EndAlike P O R A
      (Store.createAddressContact P E k { id := id, ownerEmail := o, columns := t } dek w)
      (Store.createAddressContact P E k { id := id, ownerEmail := o', columns := t' } dek w') := by
  unfold Store.createAddressContact
  have hreq : (o = "" ∨ t.email = "") ↔ o' = "" ∨ t'.email = "" :=
    or_congr (hO.empty ho.renamed) (hR.empty hemail)
  dsimp only
  by_cases hmissing : o = "" ∨ t.email = ""
  · rw [if_pos hmissing, if_pos (hreq.mp hmissing)]
    exact ⟨rfl, h⟩
  rw [if_neg hmissing, if_neg fun h => hmissing (hreq.mpr h), hnormal.1, hnormal.2]
  -- the texts as they are stored, with a source in any case
  have htexts : TextsAlike P R
      { t with source := if t.source = "" then "manual" else t.source }
      { t' with source := if t'.source = "" then "manual" else t'.source } := by
    refine ⟨hemail, hnormal, ?_, ?_⟩ <;> dsimp only <;> split <;> simp_all
  rcases dek with _ | key
  · obtain ⟨e, he⟩ := wrapFields_none w.nonces htexts.source.1
    obtain ⟨e', he'⟩ := wrapFields_none w'.nonces htexts.source.2
    rw [he, he']
    exact ⟨rfl, h⟩
  rw [wrapFields_some, wrapFields_some]
  rcases E.execErr k with _ | e
  case some => exact ⟨rfl, h.nonces _ _⟩
  have hrow : RowAlike P O R A
      { id := id
        ownerID := cryptoOwnerID P o
        emailHash := emailIndex P t.email
        columns := Columns.seal key w.nonces
          { t with source := if t.source = "" then "manual" else t.source }
        avatarPath := ""
        createdAt := E.now k
        updatedAt := E.now k }
      { id := id
        ownerID := cryptoOwnerID P o'
        emailHash := emailIndex P t'.email
        columns := Columns.seal key w'.nonces
          { t' with source := if t'.source = "" then "manual" else t'.source }
        avatarPath := ""
        createdAt := E.now k
        updatedAt := E.now k } := by
    refine ⟨rfl, rfl, rfl, hA.empty, ho.digests, key, _, _, _, _, rfl, rfl, htexts, ?_, ?_⟩
    · exact emailIndex_normal hnormal.1
    · exact emailIndex_normal hnormal.2
  obtain ⟨e, e', he, he'⟩ | ⟨u, u', hu, hu', hrows⟩ := insert_alike hO hR h.rows hrow
  · dsimp only [Option.getD]
    rw [he, he']
    exact ⟨rfl, h.nonces _ _⟩
  · dsimp only [Option.getD]
    rw [hu, hu']
    exact ⟨rfl, hrows, h.uuids⟩

/-- `UpdateAddressContact` in the two runs. -/
theorem updateAddressContact_alike (hO : Renames O) (hR : Renames R)
    (ho : OwnersAlike P O o o') (h : StateAlike P O R A w w') (k : Nat) (dek : Option Nat)
    {c c' : Contact} (hc : ContactsAlike P R (fun _ _ => True) c c') (hown : c.ownerEmail = o)
    (hown' : c'.ownerEmail = o')
    (hpath : E.execErr k = none → c.id ≠ "" → c.ownerEmail ≠ "" → A c.avatarPath c'.avatarPath) :
    EndAlike P O R A (Store.updateAddressContact P E k c dek w)
      (Store.updateAddressContact P E k c' dek w') := by
  subst hown hown'
  unfold Store.updateAddressContact
  have hreq : (c.id = "" ∨ c.ownerEmail = "") ↔ c'.id = "" ∨ c'.ownerEmail = "" :=
    or_congr (by rw [hc.id]) (hO.empty ho.renamed)
  dsimp only
  by_cases hmissing : c.id = "" ∨ c.ownerEmail = ""
  · rw [if_pos hmissing, if_pos (hreq.mp hmissing)]
    exact ⟨rfl, h⟩
  rw [if_neg hmissing, if_neg fun h => hmissing (hreq.mpr h), hc.texts.normal.1, hc.texts.normal.2]
  rcases dek with _ | key
  · obtain ⟨e, he⟩ := wrapFields_none w.nonces hc.texts.source.1
    obtain ⟨e', he'⟩ := wrapFields_none w'.nonces hc.texts.source.2
    rw [he, he']
    exact ⟨rfl, h⟩
  rw [wrapFields_some, wrapFields_some]
  rcases hexec : E.execErr k with _ | e
  case some => exact ⟨rfl, h.nonces _ _⟩
  have hrows := update_alike hO hR ho h.rows c.id (E.now k) key w.nonces w'.nonces
    hc.texts (hpath hexec (not_or.mp hmissing).1 (not_or.mp hmissing).2)
  dsimp only
  rw [← hc.id, emailIndex_normal hc.texts.normal.1, emailIndex_normal hc.texts.normal.2]
  obtain ⟨e, e', he, he'⟩ | ⟨n, u, u', hu, hu', hrows⟩ := hrows
  · rw [he, he']
    exact ⟨rfl, h.nonces _ _⟩
  · rw [hu, hu']
    rcases n with _ | n
    · exact ⟨rfl, hrows, h.uuids⟩
    · exact ⟨rfl, hrows, h.uuids⟩

/-- `DeleteAddressContact` in the two runs. -/
theorem deleteAddressContact_alike (hO : Renames O) (ho : OwnersAlike P O o o')
    (h : StateAlike P O R A w w') (id : String) :
    StateAlike P O R A (Store.deleteAddressContact P E o id w).2
      (Store.deleteAddressContact P E o' id w').2 := by
  unfold Store.deleteAddressContact
  rcases E.execErr 0 with _ | e
  case some => exact h
  refine ⟨?_, h.uuids⟩
  refine List.rel_filter (fun r r' hr => ?_) h.rows
  have hiff : r.ownerID = cryptoOwnerID P o ∧ r.id = id ↔
      r'.ownerID = cryptoOwnerID P o' ∧ r'.id = id := by
    rw [hr.owner_iff hO ho, hr.id]
  simp only [Bool.not_eq_true', decide_eq_false_iff_not]
  exact not_congr hiff

end Databases

/-! ## Requests in the two runs -/

section Requests

variable {P : Params} {M : Outside} {O R A : String → String → Prop} {o o' : String}
  {w w' : BookState} {dek : Option Nat} {E : Around} {s? s?' : Option BookSession}

@[simp] theorem respondContact_state (what : String) (x : Res Contact × BookState) :
    (respondContact what x).2 = x.2 := by
  obtain ⟨_ | _, _⟩ := x <;> rfl

@[simp] theorem respondDeleted_state (x : Res Nat × BookState) : (respondDeleted x).2 = x.2 := by
  obtain ⟨_ | _ | _, _⟩ := x <;> rfl

/-- Who is logged in, in the two runs. -/
structure LoggedIn (P : Params) (O : String → String → Prop) (s? s?' : Option BookSession)
    (o o' : String) (dek : Option Nat) : Prop where
  fst : ownerFromCtx P s? = some (o, dek)
  snd : ownerFromCtx P s?' = some (o', dek)
  owners : OwnersAlike P O o o'

theorem ownerFromCtx_alike (hP : LowerCase P) {c c' : BookCall} (hc : CallsAlike P M O R c c') :
    (ownerFromCtx P c.sess? = none ∧ ownerFromCtx P c'.sess? = none) ∨
      ∃ o o' dek, LoggedIn P O c.sess? c'.sess? o o' dek := by
  obtain ⟨s, s', hs, hs', hempty, hO, hdek⟩ := hc.sessions
  rw [hs, hs']
  by_cases he : s.email = ""
  · refine .inl ⟨?_, ?_⟩
    · rw [ownerFromCtx, if_pos he]
    · rw [ownerFromCtx, if_pos (hempty.mp he)]
  · refine .inr ⟨_, _, s.dek, ?_, ?_, hO, hP.normalizeEmail_idem _, hP.normalizeEmail_idem _⟩
    · rw [ownerFromCtx, if_neg he]
    · rw [ownerFromCtx, if_neg fun h => he (hempty.mpr h), hdek]

/-- A new id in the two runs. -/
theorem newID_alike (h : StateAlike P O R A w w') :
    (newID P w).1 = (newID P w').1 ∧ StateAlike P O R A (newID P w).2 (newID P w').2 := by
  refine ⟨congrArg P.uuid h.uuids, h.rows, congrArg (· + 1) h.uuids⟩

/-- Both parse, or neither does. -/
theorem parseAddress_cases {e e' : String} (h : M.Parses e ↔ M.Parses e') :
    (∃ a a', M.parseAddress e = .ok a ∧ M.parseAddress e' = .ok a') ∨
      ∃ t t', M.parseAddress e = .error t ∧ M.parseAddress e' = .error t' := by
  rcases hp : M.parseAddress e with t | a <;> rcases hp' : M.parseAddress e' with t' | a'
  · exact .inr ⟨t, t', rfl, rfl⟩
  · obtain ⟨a, ha⟩ := h.mpr ⟨a', hp'⟩
    rw [hp] at ha
    cases ha
  · obtain ⟨a', ha'⟩ := h.mp ⟨a, hp⟩
    rw [hp'] at ha'
    cases ha'
  · exact .inl ⟨a, a', rfl, rfl⟩

/-- A branch taken in both runs. -/
theorem ite_alike {c c' : Prop} [Decidable c] [Decidable c'] (hc : c ↔ c')
    {x y x' y' : BookResp × BookState} (hx : c → StateAlike P O R A x.2 x'.2)
    (hy : ¬c → StateAlike P O R A y.2 y'.2) :
    StateAlike P O R A (if c then x else y).2 (if c' then x' else y').2 := by
  by_cases h : c
  · rw [if_pos h, if_pos (hc.mp h)]
    exact hx h
  · rw [if_neg h, if_neg fun h' => h (hc.mpr h')]
    exact hy h

theorem createUnlessKnown_alike (hO : Renames O) (hR : Renames R) (hA : TellsPaths A)
    (ho : OwnersAlike P O o o') (h : StateAlike P O R A w w') (dek : Option Nat) {e e' : String}
    (he : R e e') (hnormal : P.normalizeEmail e = e ∧ P.normalizeEmail e' = e')
    (r r' : CreateContactRequest) :
    StateAlike P O R A (createUnlessKnown P E o dek e r w).2
      (createUnlessKnown P E o' dek e' r' w').2 := by
  have hcount := countAddressContacts_alike (E := E) hO ho h
  unfold createUnlessKnown
  refine ite_alike (by rw [hcount]) (fun _ => h) fun _ => ?_
  refine ite_alike ?_ (fun _ => h) fun _ => ?_
  · obtain ⟨hnone, hnone'⟩ | ⟨c, c', hc, hc', -⟩ :=
      getAddressContactByEmail_alike hO hR ho h he hnormal 0 dek
    · rw [hnone, hnone']
    · rw [hc, hc']
      exact Iff.rfl
  · obtain ⟨hid, hnew⟩ := newID_alike h
    rw [respondContact_state, respondContact_state, hid]
    refine (createAddressContact_alike hO hR hA ho hnew 0 dek ?_ ?_).2
    · exact he
    · exact hnormal

theorem create_step (hP : LowerCase P) (hO : Renames O) (hR : Renames R) (hA : TellsPaths A)
    (hlog : LoggedIn P O s? s?' o o' dek) (h : StateAlike P O R A w w')
    {r r' : CreateContactRequest} (he : AddressAlike P M R r.email r'.email)
    (hraw : M.Parses r.email ↔ M.Parses r'.email) :
    StateAlike P O R A (createAddressContact P M E s? (.ok r) w).2
      (createAddressContact P M E s?' (.ok r') w').2 := by
  have hnormal := And.intro (hP.normalizeEmail_idem r.email) (hP.normalizeEmail_idem r'.email)
  have hrest := createUnlessKnown_alike (E := E) hO hR hA hlog.owners h dek he.renamed
    hnormal r r'
  unfold createAddressContact
  rw [hlog.fst, hlog.snd]
  refine ite_alike (hR.empty he.renamed) (fun _ => h) fun _ => ?_
  obtain ⟨a, a', ha, ha'⟩ | ⟨t, t', ht, ht'⟩ := parseAddress_cases he.parses
  · rw [ha, ha']
    exact hrest
  rw [ht, ht']
  obtain ⟨a, a', ha, ha'⟩ | ⟨s, s', hs, hs'⟩ := parseAddress_cases hraw
  · rw [ha, ha']
    exact hrest
  · rw [hs, hs']
    exact h

theorem apply_alike {c c' : Contact} {B : String → String → Prop} (hc : ContactsAlike P R B c c')
    (r r' : UpdateContactRequest) (clearNote : Bool) :
    ContactsAlike P R B (r.apply clearNote c) (r'.apply clearNote c') :=
  ⟨hc.id, hc.path, hc.texts.email, hc.texts.normal, hc.texts.source⟩

theorem setEmail_alike {c c' : Contact} {B : String → String → Prop}
    (hc : ContactsAlike P R B c c') {e e' : String} (he : R e e')
    (hnormal : P.normalizeEmail e = e ∧ P.normalizeEmail e' = e') :
    ContactsAlike P R B (c.setEmail e) (c'.setEmail e') :=
  ⟨hc.id, hc.path, he, hnormal, hc.texts.source⟩

theorem ContactsAlike.mono {c c' : Contact} {B : String → String → Prop}
    (hc : ContactsAlike P R A c c') (hB : ∀ p p', A p p' → B p p') : ContactsAlike P R B c c' :=
  ⟨hc.id, hB _ _ hc.path, hc.texts⟩

theorem update_step (hP : LowerCase P) (hO : Renames O) (hR : Renames R)
    (hlog : LoggedIn P O s? s?' o o' dek) (h : StateAlike P O R A w w') (id : String)
    (clearNote : Bool) {r r' : UpdateContactRequest} (hempty : r.email = "" ↔ r'.email = "")
    (he : r.email ≠ "" → AddressAlike P M R r.email r'.email) :
    StateAlike P O R A (updateAddressContact P M E s? id clearNote (.ok r) w).2
      (updateAddressContact P M E s?' id clearNote (.ok r') w').2 := by
  have hnormal := And.intro (hP.normalizeEmail_idem r.email) (hP.normalizeEmail_idem r'.email)
  unfold updateAddressContact
  rw [hlog.fst, hlog.snd]
  refine ite_alike Iff.rfl (fun _ => h) fun _ => ?_
  obtain ⟨e, e', hg, hg'⟩ | ⟨hg, hg'⟩ | ⟨c, c', hg, hg', hc, -, hown, hown'⟩ :=
    getAddressContact_alike (E := E) hO hlog.owners h id dek
  · rw [hg, hg']
    exact h
  · rw [hg, hg']
    exact h
  rw [hg, hg']
  refine ite_alike hempty (fun _ => ?_) fun hne => ?_
  · rw [respondContact_state, respondContact_state]
    exact (updateAddressContact_alike hO hR hlog.owners h 0 dek
      (apply_alike (hc.mono fun _ _ _ => trivial) r r' clearNote) hown hown' fun _ _ _ => hc.path).2
  obtain ⟨hrenamed, hparses⟩ := he hne
  dsimp only
  generalize P.normalizeEmail r.email = e at hrenamed hparses hnormal ⊢
  generalize P.normalizeEmail r'.email = e' at hrenamed hparses hnormal ⊢
  obtain ⟨a, a', ha, ha'⟩ | ⟨t, t', ht, ht'⟩ := parseAddress_cases hparses
  · rw [ha, ha']
    refine ite_alike ?_ (fun _ => h) fun _ => ?_
    · refine and_congr (not_congr (hR.unique hrenamed hc.texts.email)) ?_
      obtain ⟨hnone, hnone'⟩ | ⟨d, d', hd, hd', -⟩ :=
        getAddressContactByEmail_alike (E := E) hO hR hlog.owners h hrenamed hnormal 0 dek
      · rw [hnone, hnone']
      · rw [hd, hd']
        exact Iff.rfl
    · rw [respondContact_state, respondContact_state]
      have hc' := setEmail_alike (hc.mono (B := fun _ _ => True) fun _ _ _ => trivial) hrenamed hnormal
      refine (updateAddressContact_alike hO hR hlog.owners h 0 dek ?_ ?_ ?_ fun _ _ _ => ?_).2
      · exact apply_alike hc' r r' clearNote
      · exact hown
      · exact hown'
      · exact hc.path
  · rw [ht, ht']
    exact h

theorem addFromEmail_alike (hO : Renames O) (hR : Renames R) (hA : TellsPaths A)
    (ho : OwnersAlike P O o o') (h : StateAlike P O R A w w') (dek : Option Nat) {e e' : String}
    (he : R e e') (hnormal : P.normalizeEmail e = e ∧ P.normalizeEmail e' = e')
    (name name' display display' note note' : String) :
    StateAlike P O R A (addFromEmail P E o dek e name display note w).2
      (addFromEmail P E o' dek e' name' display' note' w').2 := by
  have hcount := countAddressContacts_alike (E := E) hO ho h
  unfold addFromEmail
  obtain ⟨hnone, hnone'⟩ | ⟨c, c', hc, hc', -⟩ :=
    getAddressContactByEmail_alike (E := E) hO hR ho h he hnormal 0 dek
  · rw [hnone, hnone']
    refine ite_alike (by rw [hcount]) (fun _ => h) fun _ => ?_
    obtain ⟨hid, hnew⟩ := newID_alike h
    rw [respondContact_state, respondContact_state, hid]
    refine (createAddressContact_alike hO hR hA ho hnew 0 dek ?_ ?_).2
    · exact he
    · exact hnormal
  · rw [hc, hc']
    exact h

theorem read_fst (r : FromEmailRequest) : (r.read P M).1 = fromAddress P M r.email := by
  rw [FromEmailRequest.read, fromAddress]
  cases M.parseAddress r.email <;> rfl

theorem fromEmail_step (hP : LowerCase P) (hO : Renames O) (hR : Renames R) (hA : TellsPaths A)
    (hlog : LoggedIn P O s? s?' o o' dek) (h : StateAlike P O R A w w') {r r' : FromEmailRequest}
    (he : R (P.normalizeEmail r.email) (P.normalizeEmail r'.email))
    (hfrom : R (fromAddress P M r.email) (fromAddress P M r'.email)) :
    StateAlike P O R A (createFromEmail P M E s? (.ok r) w).2
      (createFromEmail P M E s?' (.ok r') w').2 := by
  have hnormal : ∀ e, P.normalizeEmail (fromAddress P M e) = fromAddress P M e := by
    intro e
    rw [fromAddress]
    split <;> exact hP.normalizeEmail_idem _
  have hnormal := And.intro (hnormal r.email) (hnormal r'.email)
  unfold createFromEmail
  rw [hlog.fst, hlog.snd]
  refine ite_alike (hR.empty he) (fun _ => h) fun _ => ?_
  dsimp only
  rw [← read_fst, ← read_fst] at hfrom hnormal
  exact addFromEmail_alike hO hR hA hlog.owners h dek hfrom hnormal ..

/-- The import in the two runs, so far. -/
structure TallyAlike (P : Params) (O R A : String → String → Prop) (x y : Tally × BookState) :
    Prop where
  saved : x.1.saved = y.1.saved
  state : StateAlike P O R A x.2 y.2

theorem overwrite_alike {c c' : Contact} {B : String → String → Prop}
    (hc : ContactsAlike P R B c c') (it it' : ImpItem) :
    ContactsAlike P R B (it.overwrite c) (it'.overwrite c') :=
  ⟨hc.id, hc.path, hc.texts.email, hc.texts.normal, hc.texts.source⟩

theorem created_alike {tally tally' : Tally} (hsaved : tally.saved = tally'.saved)
    {u u' : Res Contact × BookState} (hu : EndAlike P O R A u u') (e e' : String) :
    TallyAlike P O R A (tally.created e u) (tally'.created e' u') := by
  obtain ⟨_ | c, v⟩ := u <;> obtain ⟨_ | c', v'⟩ := u' <;> obtain ⟨hok, hv⟩ := hu
  · unfold Tally.created
    dsimp only
    split <;> split <;> exact ⟨hsaved, hv⟩
  · cases hok
  · cases hok
  · exact ⟨congrArg (· + 1) hsaved, hv⟩

theorem updated_alike {tally tally' : Tally} (hsaved : tally.saved = tally'.saved)
    {u u' : Res Contact × BookState} (hu : EndAlike P O R A u u') (e e' : String) :
    TallyAlike P O R A (tally.updated e u) (tally'.updated e' u') := by
  obtain ⟨_ | c, v⟩ := u <;> obtain ⟨_ | c', v'⟩ := u' <;> obtain ⟨hok, hv⟩ := hu
  · exact ⟨hsaved, hv⟩
  · cases hok
  · cases hok
  · exact ⟨congrArg (· + 1) hsaved, hv⟩

theorem importNew_alike (hO : Renames O) (hR : Renames R) (hA : TellsPaths A)
    (ho : OwnersAlike P O o o') {tally tally' : Tally} (hsaved : tally.saved = tally'.saved)
    (h : StateAlike P O R A w w') (dek : Option Nat) (k : Nat) {e e' : String} (he : R e e')
    (hnormal : P.normalizeEmail e = e ∧ P.normalizeEmail e' = e') (it it' : ImpItem) :
    TallyAlike P O R A (importNew P E o dek k e it tally w)
      (importNew P E o' dek k e' it' tally' w') := by
  obtain ⟨hid, hnew⟩ := newID_alike h
  unfold importNew
  dsimp only
  rw [hid]
  refine created_alike hsaved (createAddressContact_alike hO hR hA ho hnew k dek ?_ ?_) e e'
  · exact he
  · exact hnormal

theorem importItem_alike (hP : LowerCase P) (hO : Renames O) (hR : Renames R) (hA : TellsPaths A)
    (ho : OwnersAlike P O o o') {tally tally' : Tally} (hsaved : tally.saved = tally'.saved)
    (h : StateAlike P O R A w w') (dek : Option Nat) (overwrite : Bool) (remaining k : Nat)
    {it it' : ImpItem} (hit : AddressAlike P M R it.email it'.email) :
    TallyAlike P O R A (importItem P M E o dek overwrite remaining k it tally w)
      (importItem P M E o' dek overwrite remaining k it' tally' w') := by
  obtain ⟨hrenamed, hparses⟩ := hit
  have hnormal := And.intro (hP.normalizeEmail_idem it.email) (hP.normalizeEmail_idem it'.email)
  unfold importItem
  dsimp only
  generalize P.normalizeEmail it.email = e at hrenamed hparses hnormal ⊢
  generalize P.normalizeEmail it'.email = e' at hrenamed hparses hnormal ⊢
  by_cases hempty : e = ""
  · rw [if_pos hempty, if_pos ((hR.empty hrenamed).mp hempty)]
    exact ⟨hsaved, h⟩
  rw [if_neg hempty, if_neg fun h => hempty ((hR.empty hrenamed).mpr h)]
  obtain ⟨a, a', ha, ha'⟩ | ⟨t, t', ht, ht'⟩ := parseAddress_cases hparses
  case inr =>
    rw [ht, ht']
    exact ⟨hsaved, h⟩
  rw [ha, ha']
  dsimp only
  obtain ⟨hnone, hnone'⟩ | ⟨c, c', hc, hc', halike, hown, hown'⟩ :=
    getAddressContactByEmail_alike (E := E) hO hR ho h hrenamed hnormal k dek
  · rw [hnone, hnone', ← hsaved]
    by_cases hfull : remaining ≠ 0 ∧ tally.saved ≥ remaining
    · simp only [if_pos hfull]
      exact ⟨rfl, h⟩
    · simp only [if_neg hfull]
      exact importNew_alike hO hR hA ho hsaved h dek k hrenamed hnormal it it'
  · rw [hc, hc']
    cases overwrite with
    | false => exact ⟨hsaved, h⟩
    | true =>
      refine updated_alike hsaved (updateAddressContact_alike hO hR ho h k dek ?_ ?_ ?_ fun _ _ _ => ?_) e e'
      · exact overwrite_alike (halike.mono fun _ _ _ => trivial) it it'
      · exact hown
      · exact hown'
      · exact halike.path

/-- The loop of `Import` in the two runs. -/
theorem importItems_alike (hP : LowerCase P) (hO : Renames O) (hR : Renames R) (hA : TellsPaths A)
    (ho : OwnersAlike P O o o') {l l' : List ImpItem}
    (hl : List.Forall₂ (fun it it' => AddressAlike P M R it.email it'.email) l l')
    {tally tally' : Tally} (hsaved : tally.saved = tally'.saved) (h : StateAlike P O R A w w')
    (dek : Option Nat) (overwrite : Bool) (remaining k : Nat) :
    TallyAlike P O R A (importItems P M E o dek overwrite remaining k l tally w)
      (importItems P M E o' dek overwrite remaining k l' tally' w') := by
  induction hl generalizing k tally tally' w w' with
  | nil => exact ⟨hsaved, h⟩
  | cons hit _ ih =>
    obtain ⟨hsaved', hstate⟩ := importItem_alike (E := E) hP hO hR hA ho hsaved h dek
      overwrite remaining k hit
    exact ih hsaved' hstate (k + 1)

theorem import_step (hP : LowerCase P) (hO : Renames O) (hR : Renames R) (hA : TellsPaths A)
    (hlog : LoggedIn P O s? s?' o o' dek) (h : StateAlike P O R A w w') (mode : String)
    {l l' : List ImpItem}
    (hl : List.Forall₂ (fun it it' => AddressAlike P M R it.email it'.email) l l') :
    StateAlike P O R A (importContacts P M E s? mode (.items l) w).2
      (importContacts P M E s?' mode (.items l') w').2 := by
  have hcount := countAddressContacts_alike (E := E) hO hlog.owners h
  have hempty : l.isEmpty = l'.isEmpty := by
    cases hl <;> rfl
  unfold importContacts
  rw [hlog.fst, hlog.snd]
  dsimp only
  rw [hempty, hcount]
  refine ite_alike Iff.rfl (fun _ => h) fun _ => ?_
  refine ite_alike Iff.rfl (fun _ => h) fun _ => ?_
  exact (importItems_alike hP hO hR hA hlog.owners hl rfl h dek _ _ 0).state

theorem delete_step (hO : Renames O) (hlog : LoggedIn P O s? s?' o o' dek)
    (h : StateAlike P O R A w w') (id : String) :
    StateAlike P O R A (deleteAddressContact P E s? id w).2
      (deleteAddressContact P E s?' id w').2 := by
  have hdelete := deleteAddressContact_alike (E := E) hO hlog.owners h id
  unfold deleteAddressContact
  rw [hlog.fst, hlog.snd]
  refine ite_alike Iff.rfl (fun _ => h) fun _ => ?_
  rw [respondDeleted_state, respondDeleted_state]
  exact hdelete

theorem cleanStep_ne_nil {rooted : Bool} {stack : List (List Char)} {comp : List Char}
    (h : ∀ part ∈ stack, part ≠ []) : ∀ part ∈ cleanStep rooted stack comp, part ≠ [] := by
  unfold cleanStep
  split
  · exact h
  rename_i hcomp
  have hpush : ∀ part ∈ comp :: stack, part ≠ [] :=
    List.forall_mem_cons.mpr ⟨fun h => hcomp (.inl h), h⟩
  split
  · split
    · split
      · simp
      · exact List.forall_mem_cons.mpr ⟨fun h => hcomp (.inl h), by simp⟩
    · split
      · exact hpush
      · exact fun part hpart => h part (List.mem_cons_of_mem _ hpart)
  · exact hpush

/-- A cleaned path is not empty. -/
theorem filepathClean_ne_nil (path : List Char) : filepathClean path ≠ [] := by
  have hparts : ∀ part ∈ (path.splitOn '/').foldl (cleanStep (path.head? == some '/')) [],
      part ≠ [] :=
    List.foldlRecOn (motive := fun stack => ∀ part ∈ stack, part ≠ []) _ _ (by simp)
      fun stack h comp _ => cleanStep_ne_nil h
  unfold filepathClean
  dsimp only
  generalize (path.splitOn '/').foldl (cleanStep (path.head? == some '/')) [] = stack at hparts ⊢
  cases path.head? == some '/' with
  | true => simp
  | false =>
    cases stack with
    | nil => simp
    | cons top rest =>
      obtain ⟨part, parts, hrev⟩ := List.exists_cons_of_ne_nil
        (List.reverse_ne_nil_iff.mpr (List.cons_ne_nil top rest))
      have hpart := hparts part (List.mem_reverse.mp (by rw [hrev]; simp))
      dsimp only
      rw [hrev]
      cases parts <;> simp [List.intercalate, hpart]

theorem avatarPath_ne (P : Params) (owner id ext : String) : avatarPath P owner id ext ≠ "" := by
  intro h
  have hnil := congrArg String.toList h
  rw [avatarPath, String.toList_ofList, filepathJoin] at hnil
  have hfilter : ∀ rest, List.filter (fun elem : List Char => decide (elem ≠ []))
      ("avatars".toList :: rest) = "avatars".toList :: rest.filter (· ≠ []) :=
    fun rest => List.filter_cons_of_pos (by decide)
  rw [hfilter] at hnil
  exact filepathClean_ne_nil _ hnil

theorem putAvatar_step (hO : Renames O) (hR : Renames R)
    (hlog : LoggedIn P O s? s?' o o' dek) (h : StateAlike P O R A w w') (id : String)
    (form : AvatarForm)
    (hstore : ∀ c c' ext, o ≠ "" → c.id ≠ "" → o' ≠ "" → c'.id ≠ "" →
      Store.getAddressContact P E o id dek w = .ok (some c) →
      Store.getAddressContact P E o' id dek w' = .ok (some c') → form.ext M = .ok ext →
      E.mkdirErr = none → E.writeErr = none → E.execErr 0 = none →
      A (avatarPath P o c.id ext) (avatarPath P o' c'.id ext)) :
    StateAlike P O R A (putAvatar P M E s? id form w).2 (putAvatar P M E s?' id form w').2 := by
  unfold putAvatar
  rw [hlog.fst, hlog.snd]
  dsimp only
  obtain ⟨e, e', hg, hg'⟩ | ⟨hg, hg'⟩ | ⟨c, c', hg, hg', hc, -, hown, hown'⟩ :=
    getAddressContact_alike (E := E) hO hlog.owners h id dek
  · rw [hg, hg']
    exact h
  · rw [hg, hg']
    exact h
  have hpaths := hstore c c'
  rw [hg, hg']
  dsimp only
  rcases hext : form.ext M with resp | ext
  · exact h
  rcases hmkdir : E.mkdirErr with _ | e
  case some => exact h
  rcases hwrite : E.writeErr with _ | e
  case some => exact h
  rw [respondContact_state, respondContact_state]
  refine (updateAddressContact_alike hO hR hlog.owners h 0 dek ?_ ?_ ?_
    fun hexec hid ho => ?_).2
  · exact ⟨hc.id, trivial, hc.texts⟩
  · exact hown
  · exact hown'
  · have ho : o ≠ "" := hown ▸ ho
    exact hpaths ext ho hid (fun h => ho ((hO.empty hlog.owners.renamed).mpr h)) (hc.id ▸ hid)
      hg hg' hext hmkdir hwrite hexec

theorem deleteAvatar_step (hO : Renames O) (hR : Renames R) (hA : TellsPaths A)
    (hlog : LoggedIn P O s? s?' o o' dek) (h : StateAlike P O R A w w') (id : String) :
    StateAlike P O R A (deleteAvatar P E s? id w).2 (deleteAvatar P E s?' id w').2 := by
  unfold deleteAvatar
  rw [hlog.fst, hlog.snd]
  dsimp only
  obtain ⟨e, e', hg, hg'⟩ | ⟨hg, hg'⟩ | ⟨c, c', hg, hg', hc, -, hown, hown'⟩ :=
    getAddressContact_alike (E := E) hO hlog.owners h id dek
  · rw [hg, hg']
    exact h
  · rw [hg, hg']
    exact h
  rw [hg, hg']
  refine ite_alike (not_congr (hA.eq_empty hc.path)) (fun _ => ?_) fun _ => h
  refine (updateAddressContact_alike hO hR hlog.owners h 0 dek ?_ ?_ ?_ fun _ _ _ => ?_).2
  · exact ⟨hc.id, trivial, hc.texts⟩
  · exact hown
  · exact hown'
  · exact hA.empty

/-- **One request in the two runs** keeps the databases alike, if the paths it stores are. -/
theorem step_alike (hP : LowerCase P) (hO : Renames O) (hR : Renames R) (hA : TellsPaths A)
    {c c' : BookCall} (hc : CallsAlike P M O R c c') (h : StateAlike P O R A w w')
    (hstore : ∀ path path', Stores P M c w path → Stores P M c' w' path' → A path path') :
    StateAlike P O R A (c.step P M w).2 (c'.step P M w').2 := by
  have hctx := ownerFromCtx_alike hP hc
  obtain ⟨E, s?, req⟩ := c
  obtain ⟨E', s?', req'⟩ := c'
  obtain ⟨heq, -, hreq⟩ := hc
  obtain rfl : E = E' := heq
  dsimp only at hctx hreq
  obtain ⟨hnone, hnone'⟩ | ⟨o, o', dek, hlog⟩ := hctx
  · -- nobody is logged in
    have hsame : ∀ (s? : Option BookSession) (req : BookRequest) (w : BookState),
        ownerFromCtx P s? = none → (BookCall.step P M ⟨E, s?, req⟩ w).2 = w := by
      intro s? req w hnone
      cases req <;> simp only [BookCall.step, createAddressContact, updateAddressContact,
        deleteAddressContact, createFromEmail, importContacts, putAvatar, deleteAvatar, hnone]
    rw [hsame _ _ _ hnone, hsame _ _ _ hnone']
    exact h
  have hfst := hlog.fst
  have hsnd := hlog.snd
  cases hreq with
  | createError e =>
    simp only [BookCall.step, createAddressContact, hfst, hsnd]
    exact h
  | create he hraw _ => exact create_step hP hO hR hA hlog h he hraw
  | updateError id clearNote e =>
    have hsame : ∀ (s? : Option BookSession) (w : BookState),
        (updateAddressContact P M E s? id clearNote (.error e) w).2 = w := by
      intro s? w
      unfold updateAddressContact
      rcases ownerFromCtx P s? with _ | ⟨owner, dek⟩
      · rfl
      dsimp only
      split
      · rfl
      · rcases Store.getAddressContact P E owner id dek w with _ | _ | _ <;> rfl
    rw [BookCall.step, BookCall.step, hsame, hsame]
    exact h
  | update id clearNote hempty he => exact update_step hP hO hR hlog h id clearNote hempty he
  | delete id => exact delete_step hO hlog h id
  | fromEmailError e =>
    simp only [BookCall.step, createFromEmail, hfst, hsnd]
    exact h
  | fromEmail he hfrom => exact fromEmail_step hP hO hR hA hlog h he hfrom
  | @importSame mode file hfile =>
    simp only [BookCall.step, importContacts, hfst, hsnd]
    cases file with
    | items l => exact absurd rfl (hfile l)
    | _ => exact h
  | importFile mode hl => exact import_step hP hO hR hA hlog h mode hl
  | putAvatar id form =>
    refine putAvatar_step hO hR hlog h id form
      fun c c' ext ho hid ho' hid' hg hg' hext hmkdir hwrite hexec => ?_
    exact hstore _ _
      ⟨id, form, o, dek, c, ext, rfl, hfst, ho, hid, hg, hext, hmkdir, hwrite, hexec, rfl⟩
      ⟨id, form, o', dek, c', ext, rfl, hsnd, ho', hid', hg', hext, hmkdir, hwrite, hexec, rfl⟩
  | deleteAvatar id => exact deleteAvatar_step hO hR hA hlog h id

/-! ## What an upload stores -/

/-- A row as the store writes it: one key seals its texts, and its hash is that of its address. -/
def SealedRow (P : Params) (r : ContactRow) : Prop :=
  ∃ k n t, r.columns = Columns.seal k n t ∧ P.normalizeEmail t.email = t.email ∧ t.source ≠ "" ∧
    r.emailHash = ⟨t.email⟩

theorem sealedRow_forall₂ {rows rows' : List ContactRow}
    (h : List.Forall₂ (RowAlike P O R A) rows rows') :
    (∀ r ∈ rows, SealedRow P r) ∧ ∀ r ∈ rows', SealedRow P r := by
  induction h with
  | nil => simp
  | cons hr _ ih =>
    obtain ⟨k, n, n', t, t', hcols, hcols', ht, hhash, hhash'⟩ := hr.texts
    exact ⟨List.forall_mem_cons.mpr ⟨⟨k, n, t, hcols, ht.normal.1, ht.source.1, hhash⟩, ih.1⟩,
      List.forall_mem_cons.mpr ⟨⟨k, n', t', hcols', ht.normal.2, ht.source.2, hhash'⟩, ih.2⟩⟩

/-- A contact that could be read has the hash of its row. -/
theorem SealedRow.of_scan {r : ContactRow} (hr : SealedRow P r) {c : Contact}
    (hc : scanAddressContact o dek r = .ok c) :
    c.id = r.id ∧ c.ownerEmail = o ∧ P.normalizeEmail c.columns.email = c.columns.email ∧
      r.emailHash = ⟨c.columns.email⟩ ∧ ∃ k, dek = some k := by
  obtain ⟨k, n, t, hcols, hnormal, hsource, hhash⟩ := hr
  rw [scanAddressContact, hcols] at hc
  by_cases hdek : dek = some k
  · rw [hdek, unwrapFields_seal] at hc
    obtain rfl := Except.ok.inj hc
    exact ⟨rfl, rfl, hnormal, hhash, k, hdek⟩
  · obtain ⟨e, he⟩ := unwrapFields_ne n hdek hsource
    rw [he] at hc
    cases hc

/-- An update that leaves the hash of its row leaves all keys. -/
theorem map_key_written {u : ContactTable} {r : ContactRow} (hr : r ∈ u.rows)
    {columns : Columns Secret} {path : String} {now : Nat} :
    (ContactTable.written r.ownerID r.id r.emailHash columns path now u.rows).map ContactRow.key =
      u.rows.map ContactRow.key := by
  rw [ContactTable.written, List.map_map]
  refine List.map_congr_left fun s hs => ?_
  rw [Function.comp_apply]
  split
  · rename_i hmine
    obtain rfl := List.inj_on_of_nodup_map u.ids hs hr hmine.2
    rfl
  · rfl

/-- It violates no unique index. -/
theorem written_keys {u : ContactTable} {r : ContactRow} (hr : r ∈ u.rows)
    {columns : Columns Secret} {path : String} {now : Nat} :
    ((ContactTable.written r.ownerID r.id r.emailHash columns path now u.rows).map
      ContactRow.key).Nodup := by
  rw [map_key_written hr]
  exact u.keys

/-- An update of a row that leaves its hash goes through. -/
theorem update_eq {u : ContactTable} {r : ContactRow} (hr : r ∈ u.rows) (columns : Columns Secret)
    (path : String) (now : Nat) :
    ∃ n v, u.update r.ownerID r.id r.emailHash columns path now = .ok (n + 1, v) ∧
      v.rows = ContactTable.written r.ownerID r.id r.emailHash columns path now u.rows := by
  have hcount : 0 < u.rows.countP fun s => s.ownerID = r.ownerID ∧ s.id = r.id :=
    List.countP_pos_iff.mpr ⟨r, hr, by simp⟩
  obtain ⟨n, hn⟩ := Nat.exists_eq_add_one_of_ne_zero hcount.ne'
  rw [ContactTable.update, dif_pos (written_keys hr), hn]
  exact ⟨n, _, rfl, rfl⟩

/-- **The path is stored** in the row of the contact. -/
theorem stores_written {c : BookCall} (hsealed : ∀ r ∈ w.contacts.rows, SealedRow P r)
    {path : String} (hs : Stores P M c w path) :
    ∃ id form o dek r columns, c.req = .putAvatar id form ∧
      ownerFromCtx P c.sess? = some (o, dek) ∧ r ∈ w.contacts.rows ∧
      r.ownerID = cryptoOwnerID P o ∧ r.id = id ∧
      (c.step P M w).2.contacts.rows = ContactTable.written r.ownerID r.id r.emailHash columns path
        (c.around.now 0) w.contacts.rows := by
  obtain ⟨id, form, o, dek, contact, ext, hreq, hctx, ho, hid, hget, hext, hmkdir, hwrite, hexec,
    rfl⟩ := hs
  -- the row that was read
  have hfound := hget
  rw [Store.getAddressContact] at hfound
  split at hfound
  · cases hfound
  split at hfound
  · cases hfound
  rename_i r hr
  have hmine : r.ownerID = cryptoOwnerID P o ∧ r.id = id := by simpa using List.find?_some hr
  have hmem := List.mem_of_find?_eq_some hr
  split at hfound
  · cases hfound
  rename_i c' hscan
  obtain rfl := Option.some.inj (Except.ok.inj hfound)
  obtain ⟨hcid, hown, hnormal, hhash, key, rfl⟩ := (hsealed r hmem).of_scan hscan
  -- the update of that row
  obtain ⟨n, v, hupdate, hrows⟩ := update_eq hmem (c'.columns.seal key w.nonces)
    (avatarPath P o c'.id ext) (c.around.now 0)
  refine ⟨id, form, o, some key, r, c'.columns.seal key w.nonces, hreq, hctx, hmem, hmine.1, hmine.2,
    ?_⟩
  rw [← hrows, BookCall.step, hreq]
  dsimp only
  rw [putAvatar, hctx]
  dsimp only
  rw [hget]
  dsimp only
  rw [hext, hmkdir, hwrite]
  dsimp only
  rw [respondContact_state, Store.updateAddressContact]
  dsimp only
  rw [if_neg (by rw [hown]; exact not_or.mpr ⟨hid, ho⟩), hnormal, wrapFields_some, hexec]
  dsimp only
  rw [← hcid] at hupdate
  rw [emailIndex_normal hnormal, ← hhash, hown, ← hmine.1, hupdate]
  rfl

theorem plain_written {rows : List ContactRow} {i : Nat} {r : ContactRow} (hi : rows[i]? = some r)
    (emailHash : Digest) (columns : Columns Secret) (path : String) (now : Nat) :
    ((ContactTable.written r.ownerID r.id emailHash columns path now rows).map
      ContactRow.plain)[i]? = some ⟨path, r.createdAt, now⟩ := by
  rw [ContactTable.written, List.getElem?_map, List.getElem?_map, hi, Option.map_some,
    if_pos ⟨rfl, rfl⟩]
  rfl

/-- **Two uploads stored leave different columns** if their paths are different. -/
theorem paths_eq {c c' : BookCall} (hc : CallsAlike P M O R c c') (h : StateAlike P O R A w w')
    (hplain : plaintext (c.step P M w).2 = plaintext (c'.step P M w').2) {path path' : String}
    (hs : Stores P M c w path) (hs' : Stores P M c' w' path') : path = path' := by
  obtain ⟨hsealed, hsealed'⟩ := sealedRow_forall₂ h.rows
  obtain ⟨id, form, o, dek, r, columns, hreq, hctx, hr, hown, hid, hrows⟩ :=
    stores_written hsealed hs
  obtain ⟨id', form', o', dek', r', columns', hreq', hctx', hr', hown', hid', hrows'⟩ :=
    stores_written hsealed' hs'
  -- the two rows are in one place
  obtain ⟨i, hi, hri⟩ := List.getElem_of_mem hr
  have hi' : i < w'.contacts.rows.length := h.rows.length_eq ▸ hi
  have halike : RowAlike P O R A r w'.contacts.rows[i] := by
    have hget := h.rows.get hi hi'
    simpa [hri] using hget
  have hsameid : id = id' := by
    have hreqs := hc.request
    rw [hreq, hreq'] at hreqs
    cases hreqs
    rfl
  have hr'i : r' = w'.contacts.rows[i] := by
    refine List.inj_on_of_nodup_map w'.contacts.ids hr' (List.getElem_mem hi') ?_
    rw [hid', ← hsameid, ← hid, halike.id]
  have hfst := plain_written (List.getElem?_eq_some_iff.mpr ⟨hi, hri⟩) r.emailHash columns path
    (c.around.now 0)
  have hsnd := plain_written (List.getElem?_eq_some_iff.mpr ⟨hi', hr'i.symm⟩) r'.emailHash columns'
    path' (c'.around.now 0)
  rw [← hrows] at hfst
  rw [← hrows'] at hsnd
  have hboth := hfst.symm.trans ((congrArg (·[i]?) hplain).trans hsnd)
  exact congrArg PlainColumns.avatarPath (Option.some.inj hboth)

end Requests

/-! ## Whole runs -/

section Runs

variable {P : Params} {M : Outside} {O R A : String → String → Prop} {w w' : BookState}

/-- Databases alike show the same exactly if their avatar paths are the same. -/
theorem plaintext_eq_of_alike (h : StateAlike P O R Eq w w') : plaintext w = plaintext w' := by
  rw [plaintext, plaintext, ← List.forall₂_eq_eq_eq, List.forall₂_map_left_iff,
    List.forall₂_map_right_iff]
  refine h.rows.imp fun r r' hr => ?_
  rw [ContactRow.plain, ContactRow.plain, hr.path, hr.created, hr.updated]

theorem alike_of_plaintext_eq (h : StateAlike P O R A w w') (hplain : plaintext w = plaintext w') :
    StateAlike P O R Eq w w' := by
  rw [plaintext, plaintext, ← List.forall₂_eq_eq_eq, List.forall₂_map_left_iff,
    List.forall₂_map_right_iff] at hplain
  refine ⟨?_, h.uuids⟩
  refine List.Forall₂.mp (fun r r' hr hp => ?_) h.rows hplain
  exact ⟨hr.id, hr.created, hr.updated, congrArg PlainColumns.avatarPath hp, hr.owner, hr.texts⟩

theorem tellsPaths_eq : TellsPaths Eq := ⟨rfl, fun h => by rw [h]⟩

/-- Both paths or none: what alike databases have in common in any case. -/
def BothPaths (p p' : String) : Prop := p = "" ↔ p' = ""

theorem tellsPaths_both : TellsPaths BothPaths := ⟨Iff.rfl, fun h => h⟩

/-- A path is stored for the one owner as for the other. -/
def SamePath (P : Params) (M : Outside) (c : BookCall) (w : BookState) (c' : BookCall)
    (w' : BookState) : Prop :=
  ∀ path path', Stores P M c w path → Stores P M c' w' path' → path = path'

theorem step_bothPaths (hP : LowerCase P) (hO : Renames O) (hR : Renames R) {c c' : BookCall}
    (hc : CallsAlike P M O R c c') (h : StateAlike P O R BothPaths w w') :
    StateAlike P O R BothPaths (c.step P M w).2 (c'.step P M w').2 := by
  refine step_alike hP hO hR tellsPaths_both hc h fun path path' hs hs' => ?_
  obtain ⟨_, _, o, _, contact, ext, -, -, -, -, -, -, -, -, -, rfl⟩ := hs
  obtain ⟨_, _, o', _, contact', ext', -, -, -, -, -, -, -, -, -, rfl⟩ := hs'
  exact iff_of_false (avatarPath_ne P o contact.id ext) (avatarPath_ne P o' contact'.id ext')

theorem step_view_iff (hP : LowerCase P) (hO : Renames O) (hR : Renames R) {c c' : BookCall}
    (hc : CallsAlike P M O R c c') (h : StateAlike P O R BothPaths w w')
    (hplain : plaintext w = plaintext w') :
    plaintext (c.step P M w).2 = plaintext (c'.step P M w').2 ↔ SamePath P M c w c' w' := by
  constructor
  · intro hnext path path' hs hs'
    exact paths_eq hc h hnext hs hs'
  · intro hsame
    exact plaintext_eq_of_alike
      (step_alike hP hO hR tellsPaths_eq hc (alike_of_plaintext_eq h hplain) hsame)

/-- No paths. -/
def NoPaths (p p' : String) : Prop := p = "" ∧ p' = ""

theorem tellsPaths_none : TellsPaths NoPaths := ⟨⟨rfl, rfl⟩, fun h => iff_of_true h.1 h.2⟩

/-- While none is stored there are none. -/
theorem noPaths_run (hP : LowerCase P) (hO : Renames O) (hR : Renames R)
    {calls calls' : List BookCall} (hcalls : List.Forall₂ (CallsAlike P M O R) calls calls')
    (h : StateAlike P O R NoPaths w w')
    (hnone : ∀ n c, calls[n]? = some c →
      ∀ path, ¬Stores P M c (after (BookCall.step P M) (calls.take n) w) path) (n : Nat) :
    StateAlike P O R NoPaths (after (BookCall.step P M) (calls.take n) w)
      (after (BookCall.step P M) (calls'.take n) w') := by
  induction hcalls generalizing w w' n with
  | nil => simpa using h
  | @cons c c' calls calls' hc _ ih =>
    rcases n with _ | n
    · exact h
    · have hnext := step_alike hP hO hR tellsPaths_none hc h
        fun path _ hs _ => absurd hs (hnone 0 c rfl path)
      exact ih hnext (fun n c hn path => hnone (n + 1) c hn path) n

theorem alike_fresh : StateAlike P O R A .fresh .fresh := ⟨.nil, rfl⟩

/-- **A cold database shows the same** in two runs that differ in addresses, names and notes,
after every number of requests, exactly if every path that both runs store is the same; and if
none is stored, the paths are empty. -/
theorem plaintext_eq_iff (hP : LowerCase P) (hO : Renames O) (hR : Renames R)
    {calls calls' : List BookCall} (hcalls : List.Forall₂ (CallsAlike P M O R) calls calls') :
    (ViewsEqual (BookCall.step P M) plaintext calls calls' .fresh .fresh ↔
      CleanPairs (BookCall.step P M) (SamePath P M) calls calls' .fresh .fresh) ∧
    ((∀ n c, calls[n]? = some c →
        ∀ path, ¬Stores P M c (after (BookCall.step P M) (calls.take n) .fresh) path) →
      ∀ n, ∀ p ∈ plaintext (after (BookCall.step P M) (calls.take n) .fresh), p.avatarPath = "") := by
  constructor
  · refine views_eq_iff (V := StateAlike P O R BothPaths) ?_ ?_ hcalls alike_fresh rfl
    · exact fun c c' w w' hc h => step_bothPaths hP hO hR hc h
    · exact fun c c' w w' hc h hplain => step_view_iff hP hO hR hc h hplain
  · intro hnone n p hp
    have halike := noPaths_run hP hO hR hcalls alike_fresh hnone n
    obtain ⟨r, hr, rfl⟩ := List.mem_map.mp hp
    obtain ⟨i, hi, rfl⟩ := List.getElem_of_mem hr
    exact (halike.rows.get hi (halike.rows.length_eq ▸ hi)).path.1

end Runs

/-! ## Two runs, run -/

/-- A parser and a detector simple enough to evaluate runs with. -/
def Outside.sample : Outside where
  parseAddress e := if '@' ∈ e.toList then .ok ⟨"", e⟩ else .error "mail: missing '@'"
  detectContentType data := if data.head? = some 0x89 then "image/png" else "text/plain"

/-- A contact is created and changed. -/
def bookCalls (owner contact name : String) : List BookCall :=
  [⟨{}, some ⟨owner, some 1⟩, .create (.ok { email := contact, displayName := name })⟩,
    ⟨{ now := fun _ => 5 }, some ⟨owner, some 1⟩, .update "u" false (.ok { note := name })⟩]

/-- An avatar for the contact. -/
def avatarCall (owner : String) : BookCall :=
  ⟨{ now := fun _ => 7 }, some ⟨owner, some 1⟩, .putAvatar "u" (.file 1 (.ok [0x89]))⟩

/-- The owner `a@x` and the owner `b@y`. -/
def sampleOwners (a b : String) : Prop := a = "a@x" ∧ b = "b@y"

/-- The contact `c@z` and the contact `d@w`. -/
def sampleContacts (a b : String) : Prop := a = "c@z" ∧ b = "d@w"

theorem renames_pair {a b : String} (ha : a ≠ "") (hb : b ≠ "") :
    Renames fun x y => x = a ∧ y = b := by
  constructor
  · rintro _ _ ⟨rfl, rfl⟩
    exact iff_of_false ha hb
  · rintro _ _ _ _ ⟨rfl, rfl⟩ ⟨rfl, rfl⟩
    exact iff_of_true rfl rfl

theorem lowerCase_sample : LowerCase .sample := ⟨fun _ => rfl, fun _ => rfl⟩

theorem bookCalls_alike : List.Forall₂ (CallsAlike .sample .sample sampleOwners sampleContacts)
    (bookCalls "a@x" "c@z" "Carla") (bookCalls "b@y" "d@w" "Dmitri") := by
  have hsession : ∃ s s' : BookSession, some (⟨"a@x", some 1⟩ : BookSession) = some s ∧
      some (⟨"b@y", some 1⟩ : BookSession) = some s' ∧ (s.email = "" ↔ s'.email = "") ∧
      sampleOwners (Params.sample.normalizeEmail s.email) (Params.sample.normalizeEmail s'.email) ∧
      s.dek = s'.dek :=
    ⟨_, _, rfl, rfl, by decide, ⟨by decide, by decide⟩, rfl⟩
  have hparses : ∀ e, '@' ∈ e.toList → Outside.Parses .sample e := fun e he => ⟨⟨"", e⟩, if_pos he⟩
  refine .cons ⟨rfl, hsession, ?_⟩ (.cons ⟨rfl, hsession, ?_⟩ .nil)
  · refine .create ⟨⟨by decide, by decide⟩, ?_⟩ ?_ rfl
    · exact iff_of_true (hparses _ (by decide)) (hparses _ (by decide))
    · exact iff_of_true (hparses _ (by decide)) (hparses _ (by decide))
  · exact .update "u" false Iff.rfl fun h => absurd rfl h

theorem avatarCall_alike :
    CallsAlike .sample .sample sampleOwners sampleContacts (avatarCall "a@x") (avatarCall "b@y") :=
  ⟨rfl, ⟨_, _, rfl, rfl, by decide, ⟨by decide, by decide⟩, rfl⟩, .putAvatar "u" _⟩

/-- Without an upload the two databases show the same, a row each. -/
theorem plaintext_eq_sample :
    (plaintext (after (BookCall.step .sample .sample) (bookCalls "a@x" "c@z" "Carla")
      .fresh)).length = 1 ∧
    ViewsEqual (BookCall.step .sample .sample) plaintext (bookCalls "a@x" "c@z" "Carla")
      (bookCalls "b@y" "d@w" "Dmitri") .fresh .fresh := by
  refine ⟨by decide +kernel, ?_⟩
  refine (plaintext_eq_iff lowerCase_sample (renames_pair (by decide) (by decide))
    (renames_pair (by decide) (by decide)) bookCalls_alike).1.mpr ?_
  rintro n c c' hn - path path' ⟨id, form, _, _, _, _, hreq, -⟩
  have hnone : ∀ c ∈ bookCalls "a@x" "c@z" "Carla", ∀ id form, c.req ≠ .putAvatar id form := by
    simp [bookCalls]
  exact absurd hreq (hnone c (List.mem_of_getElem? hn) id form)

/-- **An avatar shows its owner**: after an upload in both runs the path column holds
`a_at_x` in the one and `b_at_y` in the other. -/
theorem avatar_shows_owner :
    List.Forall₂ (CallsAlike .sample .sample sampleOwners sampleContacts)
      (bookCalls "a@x" "c@z" "Carla" ++ [avatarCall "a@x"])
      (bookCalls "b@y" "d@w" "Dmitri" ++ [avatarCall "b@y"]) ∧
    plaintext (after (BookCall.step .sample .sample)
      (bookCalls "a@x" "c@z" "Carla" ++ [avatarCall "a@x"]) .fresh) =
        [⟨"avatars/a_at_x/u.png", 0, 7⟩] ∧
    ¬ViewsEqual (BookCall.step .sample .sample) plaintext
      (bookCalls "a@x" "c@z" "Carla" ++ [avatarCall "a@x"])
      (bookCalls "b@y" "d@w" "Dmitri" ++ [avatarCall "b@y"]) .fresh .fresh := by
  have hfst : plaintext (after (BookCall.step .sample .sample)
      (bookCalls "a@x" "c@z" "Carla" ++ [avatarCall "a@x"]) .fresh) =
        [⟨"avatars/a_at_x/u.png", 0, 7⟩] := by decide +kernel
  have hsnd : plaintext (after (BookCall.step .sample .sample)
      (bookCalls "b@y" "d@w" "Dmitri" ++ [avatarCall "b@y"]) .fresh) =
        [⟨"avatars/b_at_y/u.png", 0, 7⟩] := by decide +kernel
  refine ⟨List.rel_append bookCalls_alike (.cons avatarCall_alike .nil), hfst, fun h => ?_⟩
  have hall := h 3
  rw [List.take_of_length_le (by simp [bookCalls]), List.take_of_length_le (by simp [bookCalls]),
    hfst, hsnd] at hall
  exact absurd hall (by decide)

end E2Mail.Backend.AddressBook
