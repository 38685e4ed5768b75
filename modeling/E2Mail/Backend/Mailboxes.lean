import E2Mail.Backend.ColdDatabase

/-!
# The mailboxes in the address book

Each handler that takes an address checks it, brings it into normal form and looks for a contact
that has it, in a way of its own. What they all keep is stated once.

* `createAddressContact_cases`, `updateAddressContact_cases` — what the store can do.
* `Sound` — the ids are drawn, and each row is sealed for an address that has come in.
* `Sound.step` — every request keeps it.
* `mailboxes_of_bare` — where only bare addresses come in, only such are stored, no mailbox twice.
-/

namespace E2Mail.Backend.AddressBook

open Lib

section Cases

variable {P : Params} {A : Around} {w : BookState}

/-! ## The store -/

/-- The texts of a contact that is created. -/
def Contact.newTexts (P : Params) (c : Contact) : Columns String :=
  { c.columns with
    email := P.normalizeEmail c.columns.email
    source := if c.columns.source = "" then "manual" else c.columns.source }

/-- The row of a contact that is created. -/
def Contact.newRow (P : Params) (A : Around) (k key nonce : Nat) (c : Contact) : ContactRow where
  id := c.id
  ownerID := cryptoOwnerID P c.ownerEmail
  emailHash := emailIndex P (P.normalizeEmail c.columns.email)
  columns := Columns.seal key nonce (c.newTexts P)
  avatarPath := c.avatarPath
  createdAt := c.createdAt.getD (A.now k)
  updatedAt := A.now k

theorem Contact.newTexts_source (P : Params) (c : Contact) : (c.newTexts P).source ≠ "" := by
  rw [Contact.newTexts]
  dsimp only
  split
  · decide
  · assumption

/-- **`CreateAddressContact`** fails and leaves the contacts as they are, or adds the row. -/
theorem createAddressContact_cases (k : Nat) (c : Contact) (dek : Option Nat) (w : BookState) :
    (∃ e n, Store.createAddressContact P A k c dek w = (.error e, { w with nonces := n })) ∨
    ∃ key c' t n, dek = some key ∧ w.contacts.insert (c.newRow P A k key w.nonces) = .ok t ∧
      Store.createAddressContact P A k c dek w =
        (.ok c', { w with nonces := n, contacts := t }) := by
  unfold Store.createAddressContact
  by_cases hmissing : c.ownerEmail = "" ∨ c.columns.email = ""
  · rw [if_pos hmissing]
    exact .inl ⟨_, _, rfl⟩
  rw [if_neg hmissing]
  rcases dek with _ | key
  · obtain ⟨e, he⟩ := wrapFields_none w.nonces (c.newTexts_source P)
    rw [Contact.newTexts] at he
    dsimp only
    rw [he]
    exact .inl ⟨_, _, rfl⟩
  dsimp only
  rw [wrapFields_some]
  cases hexec : A.execErr k with
  | some e => exact .inl ⟨_, _, rfl⟩
  | none =>
    cases hinsert : w.contacts.insert (c.newRow P A k key w.nonces) with
    | error e =>
      rw [Contact.newRow, Contact.newTexts] at hinsert
      dsimp only
      rw [Option.getD_some, hinsert]
      exact .inl ⟨_, _, rfl⟩
    | ok t =>
      have hinsert' := hinsert
      rw [Contact.newRow, Contact.newTexts] at hinsert
      dsimp only
      rw [Option.getD_some, hinsert]
      exact .inr ⟨key, _, t, _, rfl, hinsert', rfl⟩

/-- The texts of a contact that is updated. -/
def Contact.texts (P : Params) (c : Contact) : Columns String :=
  { c.columns with email := P.normalizeEmail c.columns.email }

@[simp] theorem Contact.texts_source (P : Params) (c : Contact) :
    (c.texts P).source = c.columns.source := by
  rw [Contact.texts]

@[simp] theorem Contact.texts_email (P : Params) (c : Contact) :
    (c.texts P).email = P.normalizeEmail c.columns.email := by
  rw [Contact.texts]

theorem update_rows {t u : ContactTable} {owner : Digest} {id : String} {emailHash : Digest}
    {columns : Columns Secret} {path : String} {now n : Nat}
    (h : t.update owner id emailHash columns path now = .ok (n, u)) :
    u.rows = ContactTable.written owner id emailHash columns path now t.rows := by
  rw [ContactTable.update] at h
  split at h
  · obtain ⟨-, rfl⟩ := Prod.mk.inj (Except.ok.inj h)
    rfl
  · cases h

/-- An update that finds no row writes none. -/
theorem update_zero {t u : ContactTable} {owner : Digest} {id : String} {emailHash : Digest}
    {columns : Columns Secret} {path : String} {now : Nat}
    (h : t.update owner id emailHash columns path now = .ok (0, u)) : u.rows = t.rows := by
  rw [update_rows h, ContactTable.written]
  rw [ContactTable.update] at h
  split at h
  · have hnone := List.countP_eq_zero.mp (Prod.mk.inj (Except.ok.inj h)).1
    rw [← List.map_id t.rows, List.map_map]
    refine List.map_congr_left fun r hr => ?_
    exact if_neg (by simpa using hnone r hr)
  · cases h

/-- **`UpdateAddressContact`** fails and leaves the rows as they are, or writes the contact's. -/
theorem updateAddressContact_cases (k : Nat) {c : Contact} (hsource : c.columns.source ≠ "")
    (dek : Option Nat) (w : BookState) :
    (∃ e w', Store.updateAddressContact P A k c dek w = (.error e, w') ∧
      w'.contacts.rows = w.contacts.rows ∧ w'.uuids = w.uuids) ∨
    ∃ key c' w', dek = some key ∧ Store.updateAddressContact P A k c dek w = (.ok c', w') ∧
      w'.contacts.rows = ContactTable.written (cryptoOwnerID P c.ownerEmail) c.id
        (emailIndex P (P.normalizeEmail c.columns.email)) (Columns.seal key w.nonces (c.texts P))
        c.avatarPath (A.now k) w.contacts.rows ∧ w'.uuids = w.uuids := by
  unfold Store.updateAddressContact
  by_cases hmissing : c.id = "" ∨ c.ownerEmail = ""
  · rw [if_pos hmissing]
    exact .inl ⟨_, _, rfl, rfl, rfl⟩
  rw [if_neg hmissing]
  rcases dek with _ | key
  · rw [← c.texts_source P] at hsource
    obtain ⟨e, he⟩ := wrapFields_none w.nonces hsource
    rw [Contact.texts] at he
    dsimp only
    rw [he]
    exact .inl ⟨_, _, rfl, rfl, rfl⟩
  dsimp only
  rw [wrapFields_some]
  cases hexec : A.execErr k with
  | some e => exact .inl ⟨_, _, rfl, rfl, rfl⟩
  | none =>
    cases hupdate : w.contacts.update (cryptoOwnerID P c.ownerEmail) c.id
        (emailIndex P (P.normalizeEmail c.columns.email)) (Columns.seal key w.nonces (c.texts P))
        c.avatarPath (A.now k) with
    | error e =>
      rw [Contact.texts] at hupdate
      dsimp only
      rw [hupdate]
      exact .inl ⟨_, _, rfl, rfl, rfl⟩
    | ok u =>
      obtain ⟨n, t⟩ := u
      have hrows := update_rows hupdate
      have hzero := fun h0 : n = 0 => update_zero (h0 ▸ hupdate)
      rw [Contact.texts] at hupdate
      dsimp only
      rw [hupdate]
      cases n with
      | zero => exact .inl ⟨_, _, rfl, hzero rfl, rfl⟩
      | succ n => exact .inr ⟨key, _, _, rfl, rfl, hrows, rfl⟩

end Cases

/-! ## The invariant -/

/-- A row sealed under one key, with the hash of its address, which is one that has come in. -/
def SealedFor (P : Params) (Q : String → Prop) (r : ContactRow) : Prop :=
  ∃ key n t, r.columns = Columns.seal key n t ∧ P.normalizeEmail t.email = t.email ∧
    t.source ≠ "" ∧ r.emailHash = ⟨t.email⟩ ∧ Q t.email

/-- What holds of the address book at any time, where `Q` holds of the addresses that come in. -/
structure Sound (P : Params) (Q : String → Prop) (w : BookState) : Prop where
  /-- the ids are drawn, and the next ones are not -/
  drawn : ∀ r ∈ w.contacts.rows, ∃ n < w.uuids, r.id = P.uuid n
  /-- the rows are sealed -/
  texts : ∀ r ∈ w.contacts.rows, SealedFor P Q r

/-- The contact has the texts of a row. -/
structure Scanned (P : Params) (Q : String → Prop) (owner : String) (c : Contact) : Prop where
  owner : c.ownerEmail = owner
  normal : P.normalizeEmail c.columns.email = c.columns.email
  source : c.columns.source ≠ ""
  came : Q c.columns.email

section Invariant

variable {P : Params} {M : Outside} {A : Around} {Q : String → Prop} {w w' : BookState}
  {owner : String} {dek : Option Nat}

theorem SealedFor.of_scan {r : ContactRow} (hr : SealedFor P Q r) {c : Contact}
    (hc : scanAddressContact owner dek r = .ok c) :
    Scanned P Q owner c ∧ c.id = r.id ∧ r.emailHash = ⟨c.columns.email⟩ := by
  obtain ⟨key, n, t, hcols, hnormal, hsource, hhash, hQ⟩ := hr
  rw [scanAddressContact, hcols] at hc
  by_cases hdek : dek = some key
  · rw [hdek, unwrapFields_seal] at hc
    obtain rfl := Except.ok.inj hc
    exact ⟨⟨rfl, hnormal, hsource, hQ⟩, rfl, hhash⟩
  · obtain ⟨e, he⟩ := unwrapFields_ne n hdek hsource
    rw [he] at hc
    cases hc

theorem Sound.congr (hs : Sound P Q w) (hrows : w'.contacts.rows = w.contacts.rows)
    (huuids : w.uuids ≤ w'.uuids) : Sound P Q w' := by
  refine ⟨fun r hr => ?_, fun r hr => hs.texts r (hrows ▸ hr)⟩
  obtain ⟨n, hn, hid⟩ := hs.drawn r (hrows ▸ hr)
  exact ⟨n, Nat.lt_of_lt_of_le hn huuids, hid⟩

/-- `CreateAddressContact`, of a contact with an id that is drawn. -/
theorem Sound.create (hP : LowerCase P) (hs : Sound P Q w) (k : Nat) {c : Contact} {n : Nat}
    (hn : n < w.uuids) (hid : c.id = P.uuid n) (hQ : Q (P.normalizeEmail c.columns.email)) :
    Sound P Q (Store.createAddressContact P A k c dek w).2 := by
  obtain ⟨e, n', hcreate⟩ | ⟨key, c', t, n', -, hinsert, hcreate⟩ :=
    createAddressContact_cases (P := P) (A := A) k c dek w
  · rw [hcreate]
    exact hs.congr rfl (Nat.le_refl _)
  rw [hcreate]
  have hrows : t.rows = w.contacts.rows ++ [c.newRow P A k key w.nonces] := by
    rw [ContactTable.insert] at hinsert
    split at hinsert
    · cases hinsert
    split at hinsert
    · cases hinsert
    rw [← Except.ok.inj hinsert]
  have hidem := hP.normalizeEmail_idem c.columns.email
  constructor
  · intro r hr
    rcases List.mem_append.mp (hrows ▸ hr) with hr | hr
    · exact hs.drawn r hr
    · obtain rfl := List.mem_singleton.mp hr
      exact ⟨n, hn, hid⟩
  · intro r hr
    rcases List.mem_append.mp (hrows ▸ hr) with hr | hr
    · exact hs.texts r hr
    · obtain rfl := List.mem_singleton.mp hr
      exact ⟨key, w.nonces, c.newTexts P, rfl, hidem, c.newTexts_source P, emailIndex_normal hidem, hQ⟩

/-- `UpdateAddressContact`. -/
theorem Sound.update (hP : LowerCase P) (hs : Sound P Q w) (k : Nat) {c : Contact}
    (hsource : c.columns.source ≠ "") (hQ : Q (P.normalizeEmail c.columns.email)) :
    Sound P Q (Store.updateAddressContact P A k c dek w).2 := by
  obtain ⟨e, w', hupdate, hrows, huuids⟩ | ⟨key, c', w', -, hupdate, hrows, huuids⟩ :=
    updateAddressContact_cases (P := P) (A := A) k hsource dek w
  · rw [hupdate]
    exact hs.congr hrows (Nat.le_of_eq huuids.symm)
  rw [hupdate]
  have hidem := hP.normalizeEmail_idem c.columns.email
  constructor
  · intro r hr
    rw [hrows, ContactTable.written, List.mem_map] at hr
    obtain ⟨s, hs', rfl⟩ := hr
    obtain ⟨n, hn, hid⟩ := hs.drawn s hs'
    refine ⟨n, huuids ▸ hn, ?_⟩
    split <;> exact hid
  · intro r hr
    rw [hrows, ContactTable.written, List.mem_map] at hr
    obtain ⟨s, hs', rfl⟩ := hr
    split
    · rw [← c.texts_email P] at hidem hQ
      rw [← c.texts_source P] at hsource
      exact ⟨key, w.nonces, c.texts P, rfl, hidem, hsource, emailIndex_normal hidem, hQ⟩
    · exact hs.texts s hs'

/-! ## The handlers -/

/-- `DeleteAddressContact`. -/
theorem Sound.delete (hs : Sound P Q w) (id : String) :
    Sound P Q (Store.deleteAddressContact P A owner id w).2 := by
  unfold Store.deleteAddressContact
  split
  · exact hs
  · exact ⟨fun r hr => hs.drawn r (List.mem_of_mem_filter hr),
      fun r hr => hs.texts r (List.mem_of_mem_filter hr)⟩

theorem Sound.newID (hs : Sound P Q w) : Sound P Q (newID P w).2 :=
  hs.congr rfl (Nat.le_succ _)

/-- A contact that the store gives out has the texts of a row. -/
theorem Sound.get (hs : Sound P Q w) {id : String} {c : Contact}
    (h : Store.getAddressContact P A owner id dek w = .ok (some c)) : Scanned P Q owner c := by
  rw [Store.getAddressContact] at h
  split at h
  · cases h
  split at h
  · cases h
  rename_i r hr
  split at h
  · cases h
  rename_i c' hscan
  obtain rfl := Option.some.inj (Except.ok.inj h)
  exact ((hs.texts r (List.mem_of_find?_eq_some hr)).of_scan hscan).1

/-- The row behind a contact that is found by its address. -/
theorem Sound.getByEmail (hs : Sound P Q w) {k : Nat} {email : String} {c : Contact}
    (h : Store.getAddressContactByEmail P A k owner email dek w = some c) :
    Scanned P Q owner c ∧ ∃ r ∈ w.contacts.rows, r.ownerID = cryptoOwnerID P owner ∧
      r.emailHash = emailIndex P (P.normalizeEmail email) ∧ r.id = c.id ∧
      r.emailHash = ⟨c.columns.email⟩ := by
  rw [Store.getAddressContactByEmail] at h
  split at h
  · cases h
  split at h
  · cases h
  rename_i r hr
  have hmine : r.ownerID = cryptoOwnerID P owner ∧
      r.emailHash = emailIndex P (P.normalizeEmail email) := by simpa using List.find?_some hr
  have hmem := List.mem_of_find?_eq_some hr
  cases hscan : scanAddressContact owner dek r with
  | error e =>
    rw [hscan] at h
    cases h
  | ok c' =>
    rw [hscan] at h
    obtain rfl := Option.some.inj h
    obtain ⟨hscanned, hid, hhash⟩ := (hs.texts r hmem).of_scan hscan
    exact ⟨hscanned, r, hmem, hmine.1, hmine.2, hid.symm, hhash⟩

/-- A branch of a handler. -/
theorem Sound.ite {p : Prop} [Decidable p] {x y : BookResp × BookState}
    (hx : p → Sound P Q x.2) (hy : ¬p → Sound P Q y.2) : Sound P Q (if p then x else y).2 := by
  split
  · exact hx ‹_›
  · exact hy ‹_›

theorem Sound.createUnlessKnown (hP : LowerCase P) (hs : Sound P Q w) {e : String}
    (req : CreateContactRequest) (hQ : Q (P.normalizeEmail e)) :
    Sound P Q (createUnlessKnown P A owner dek e req w).2 := by
  unfold AddressBook.createUnlessKnown
  refine .ite (fun _ => hs) fun _ => .ite (fun _ => hs) fun _ => ?_
  dsimp only
  rw [respondContact_state]
  exact hs.newID.create hP 0 (Nat.lt_succ_self w.uuids) rfl hQ

theorem Sound.addFromEmail (hP : LowerCase P) (hs : Sound P Q w) {e : String}
    (name displayName note : String) (hQ : Q (P.normalizeEmail e)) :
    Sound P Q (addFromEmail P A owner dek e name displayName note w).2 := by
  unfold AddressBook.addFromEmail
  split
  · exact hs
  refine .ite (fun _ => hs) fun _ => ?_
  dsimp only
  rw [respondContact_state]
  exact hs.newID.create hP 0 (Nat.lt_succ_self w.uuids) rfl hQ

end Invariant

/-! ## Requests -/

/-- The addresses that a request brings in: those that pass its check, as it stores them. -/
def BookRequest.Brings (P : Params) (M : Outside) : BookRequest → String → Prop
  | .create (.ok req), e =>
    e = P.normalizeEmail req.email ∧ e ≠ "" ∧ (M.Parses e ∨ M.Parses req.email)
  | .update _ _ (.ok req), e => e = P.normalizeEmail req.email ∧ req.email ≠ "" ∧ M.Parses e
  | .fromEmail (.ok req), e => e = fromAddress P M req.email ∧ P.normalizeEmail req.email ≠ ""
  | .importFile _ (.items l), e => ∃ it ∈ l, e = P.normalizeEmail it.email ∧ e ≠ "" ∧ M.Parses e
  | _, _ => False

section Steps

variable {P : Params} {M : Outside} {A : Around} {Q : String → Prop} {w w' : BookState}
  {owner : String} {dek : Option Nat}

theorem Sound.importNew (hP : LowerCase P) (hs : Sound P Q w) (k : Nat) {e : String} (it : ImpItem)
    (tally : Tally) (hQ : Q (P.normalizeEmail e)) :
    Sound P Q (importNew P A owner dek k e it tally w).2 := by
  have hstate : ∀ u, (tally.created e u).2 = u.2 := by
    rintro ⟨_ | _, _⟩
    · unfold Tally.created
      dsimp only
      split <;> rfl
    · rfl
  unfold AddressBook.importNew
  dsimp only
  rw [hstate]
  exact hs.newID.create hP k (Nat.lt_succ_self w.uuids) rfl hQ

theorem Sound.importItem (hP : LowerCase P) (hs : Sound P Q w) (overwrite : Bool)
    (remaining k : Nat) (it : ImpItem) (tally : Tally)
    (hQ : P.normalizeEmail it.email ≠ "" → M.Parses (P.normalizeEmail it.email) →
      Q (P.normalizeEmail it.email)) :
    Sound P Q (importItem P M A owner dek overwrite remaining k it tally w).2 := by
  unfold AddressBook.importItem
  dsimp only
  split
  · exact hs
  rename_i hne
  split
  · exact hs
  rename_i a ha
  have hcame := hQ hne ⟨a, ha⟩
  split
  · rename_i exist hexist
    obtain ⟨hscanned, -⟩ := hs.getByEmail hexist
    have hstate : ∀ u, (tally.updated (P.normalizeEmail it.email) u).2 = u.2 := by
      rintro ⟨_ | _, _⟩ <;> rfl
    split
    · rw [hstate]
      exact hs.update hP k hscanned.source (by rw [ImpItem.overwrite, hscanned.normal]; exact hscanned.came)
    · exact hs
  · split
    · exact hs
    · exact hs.importNew hP k it tally (by rw [hP.normalizeEmail_idem]; exact hcame)

theorem Sound.importItems (hP : LowerCase P) (hs : Sound P Q w) (overwrite : Bool)
    (remaining k : Nat) {l : List ImpItem} (tally : Tally)
    (hQ : ∀ it ∈ l, P.normalizeEmail it.email ≠ "" → M.Parses (P.normalizeEmail it.email) →
      Q (P.normalizeEmail it.email)) :
    Sound P Q (importItems P M A owner dek overwrite remaining k l tally w).2 := by
  induction l generalizing k tally w with
  | nil => exact hs
  | cons it l ih =>
    obtain ⟨hit, hl⟩ := List.forall_mem_cons.mp hQ
    exact ih (hs.importItem hP overwrite remaining k it tally hit) (k + 1) _ hl

theorem apply_source (req : UpdateContactRequest) (clearNote : Bool) (c : Contact) :
    (req.apply clearNote c).columns.source = c.columns.source := by
  rw [UpdateContactRequest.apply]

theorem apply_email (req : UpdateContactRequest) (clearNote : Bool) (c : Contact) :
    (req.apply clearNote c).columns.email = c.columns.email := by
  rw [UpdateContactRequest.apply]

theorem Sound.createHandler (hP : LowerCase P) (hs : Sound P Q w) (sess? : Option BookSession)
    (body : Except BodyErr CreateContactRequest)
    (hQ : ∀ e, BookRequest.Brings P M (.create body) e → Q e) :
    Sound P Q (createAddressContact P M A sess? body w).2 := by
  unfold createAddressContact
  split
  · exact hs
  split
  · exact hs
  rename_i req
  refine .ite (fun _ => hs) fun hne => ?_
  have hidem := hP.normalizeEmail_idem req.email
  split
  · exact hs
  rename_i hparses
  refine hs.createUnlessKnown hP req (hidem.symm ▸ hQ _ ⟨rfl, hne, ?_⟩)
  rcases ha : M.parseAddress (P.normalizeEmail req.email) with t | a
  · rcases hb : M.parseAddress req.email with t' | b
    · exact absurd hb (hparses t t' ha)
    · exact .inr ⟨b, hb⟩
  · exact .inl ⟨a, ha⟩

theorem Sound.updateHandler (hP : LowerCase P) (hs : Sound P Q w) (sess? : Option BookSession)
    (id : String) (clearNote : Bool) (body : Except BodyErr UpdateContactRequest)
    (hQ : ∀ e, BookRequest.Brings P M (.update id clearNote body) e → Q e) :
    Sound P Q (updateAddressContact P M A sess? id clearNote body w).2 := by
  unfold updateAddressContact
  split
  · exact hs
  refine .ite (fun _ => hs) fun _ => ?_
  split
  · exact hs
  · exact hs
  rename_i existing hget
  have hscanned := hs.get hget
  split
  · exact hs
  rename_i req
  refine .ite (fun _ => ?_) fun hne => ?_
  · rw [respondContact_state]
    refine hs.update hP 0 ?_ ?_
    · rw [apply_source]
      exact hscanned.source
    · rw [apply_email, hscanned.normal]
      exact hscanned.came
  · dsimp only
    split
    · exact hs
    rename_i a ha
    refine .ite (fun _ => hs) fun _ => ?_
    rw [respondContact_state]
    refine hs.update hP 0 ?_ ?_
    · rw [apply_source, Contact.setEmail]
      exact hscanned.source
    · rw [apply_email, Contact.setEmail, hP.normalizeEmail_idem]
      exact hQ _ ⟨rfl, hne, a, ha⟩

theorem Sound.fromEmailHandler (hP : LowerCase P) (hs : Sound P Q w) (sess? : Option BookSession)
    (body : Except BodyErr FromEmailRequest)
    (hQ : ∀ e, BookRequest.Brings P M (.fromEmail body) e → Q e) :
    Sound P Q (createFromEmail P M A sess? body w).2 := by
  unfold createFromEmail
  split
  · exact hs
  split
  · exact hs
  rename_i req
  refine .ite (fun _ => hs) fun hne => ?_
  have hnormal : P.normalizeEmail (fromAddress P M req.email) = fromAddress P M req.email := by
    rw [fromAddress]
    split <;> exact hP.normalizeEmail_idem _
  have hcame : Q (P.normalizeEmail (req.read P M).1) := by
    rw [read_fst, hnormal]
    exact hQ _ ⟨rfl, hne⟩
  exact hs.addFromEmail hP _ _ _ hcame

theorem Sound.importHandler (hP : LowerCase P) (hs : Sound P Q w) (sess? : Option BookSession)
    (mode : String) (file : ImportFile)
    (hQ : ∀ e, BookRequest.Brings P M (.importFile mode file) e → Q e) :
    Sound P Q (importContacts P M A sess? mode file w).2 := by
  unfold importContacts
  split
  · exact hs
  split
  case h_6 =>
    rename_i l
    refine .ite (fun _ => hs) fun _ => .ite (fun _ => hs) fun _ => ?_
    exact hs.importItems hP _ _ 0 _ fun it hit hne hparses => hQ _ ⟨it, hit, rfl, hne, hparses⟩
  all_goals exact hs

theorem Sound.putAvatarHandler (hP : LowerCase P) (hs : Sound P Q w) (sess? : Option BookSession)
    (id : String) (form : AvatarForm) : Sound P Q (putAvatar P M A sess? id form w).2 := by
  unfold putAvatar
  split
  · exact hs
  split
  · exact hs
  · exact hs
  rename_i c hget
  have hscanned := hs.get hget
  split
  · exact hs
  split
  · exact hs
  · exact hs
  · rw [respondContact_state]
    exact hs.update hP 0 hscanned.source (by rw [hscanned.normal]; exact hscanned.came)

theorem Sound.deleteAvatarHandler (hP : LowerCase P) (hs : Sound P Q w) (sess? : Option BookSession)
    (id : String) : Sound P Q (deleteAvatar P A sess? id w).2 := by
  unfold deleteAvatar
  split
  · exact hs
  split
  · exact hs
  · exact hs
  rename_i c hget
  have hscanned := hs.get hget
  refine .ite (fun _ => ?_) fun _ => hs
  exact hs.update hP 0 hscanned.source (by rw [hscanned.normal]; exact hscanned.came)

theorem Sound.deleteHandler (hs : Sound P Q w) (sess? : Option BookSession) (id : String) :
    Sound P Q (deleteAddressContact P A sess? id w).2 := by
  unfold deleteAddressContact
  split
  · exact hs
  refine .ite (fun _ => hs) fun _ => ?_
  rw [respondDeleted_state]
  exact hs.delete id

/-- **Every request** keeps the invariant. -/
theorem Sound.step (hP : LowerCase P) (hs : Sound P Q w) {c : BookCall}
    (hQ : ∀ e, c.req.Brings P M e → Q e) : Sound P Q (c.step P M w).2 := by
  obtain ⟨A, sess?, req⟩ := c
  cases req with
  | create body => exact hs.createHandler hP sess? body hQ
  | update id clearNote body => exact hs.updateHandler hP sess? id clearNote body hQ
  | delete id => exact hs.deleteHandler sess? id
  | fromEmail body => exact hs.fromEmailHandler hP sess? body hQ
  | importFile mode file => exact hs.importHandler hP sess? mode file hQ
  | putAvatar id form => exact hs.putAvatarHandler hP sess? id form
  | deleteAvatar id => exact hs.deleteAvatarHandler hP sess? id

/-! ## Runs -/

/-- The requests one after the other. -/
def runCalls (P : Params) (M : Outside) (calls : List BookCall) (w : BookState) : BookState :=
  calls.foldl (fun w c => (c.step P M w).2) w

/-- **Every run** keeps the invariant. -/
theorem Sound.run (hP : LowerCase P) (hs : Sound P Q w) {calls : List BookCall}
    (hQ : ∀ c ∈ calls, ∀ e, c.req.Brings P M e → Q e) : Sound P Q (runCalls P M calls w) := by
  induction calls generalizing w with
  | nil => exact hs
  | cons c calls ih =>
    obtain ⟨hc, hcalls⟩ := List.forall_mem_cons.mp hQ
    exact ih (hs.step hP hc) hcalls

theorem sound_fresh : Sound P Q .fresh := ⟨by simp [BookState.fresh, ContactTable.empty],
  by simp [BookState.fresh, ContactTable.empty]⟩

/-! ## Mailboxes -/

/-- The text is a bare address: read as an address it has no name, and is the address itself. -/
def Outside.Bare (M : Outside) (e : String) : Prop := M.parseAddress e = .ok ⟨"", e⟩

/-- The two texts are addresses of one mailbox, whatever the case. -/
def SameMailbox (P : Params) (M : Outside) (e e' : String) : Prop :=
  ∃ a a', M.parseAddress e = .ok a ∧ M.parseAddress e' = .ok a' ∧
    P.lower a.address = P.lower a'.address

/-- The address of a contact as it is stored. -/
def ContactRow.Stores (r : ContactRow) (e : String) : Prop :=
  ∃ key n t, r.columns = Columns.seal key n t ∧ t.email = e

/-- What is claimed of the stored contacts. -/
structure Mailboxes (P : Params) (M : Outside) (w : BookState) : Prop where
  /-- each has a bare address -/
  bare : ∀ r ∈ w.contacts.rows, ∃ e, r.Stores e ∧ M.Bare e
  /-- no two of an owner have the same mailbox -/
  apart : ∀ r ∈ w.contacts.rows, ∀ r' ∈ w.contacts.rows, r.ownerID = r'.ownerID →
    ∀ e e', r.Stores e → r'.Stores e' → SameMailbox P M e e' → r = r'

/-- The texts of a row can be read in one way. -/
theorem stores_unique {r : ContactRow} {e e' : String} (h : r.Stores e) (h' : r.Stores e') :
    e = e' := by
  obtain ⟨key, n, t, hcols, rfl⟩ := h
  obtain ⟨key', n', t', hcols', rfl⟩ := h'
  have heq := congrArg Columns.email (hcols.symm.trans hcols')
  simp only [Columns.seal, sealText] at heq
  split at heq <;> split at heq <;> simp_all

/-- Normal forms are in lower case. -/
theorem lower_of_normal (hP : LowerCase P) {e : String} (h : P.normalizeEmail e = e) :
    P.lower e = e := by
  rw [← h, Params.normalizeEmail, Params.lower, Params.lower, String.toList_ofList, List.map_map]
  exact congrArg String.ofList (List.map_congr_left fun c _ => hP.idem c)

theorem Sound.mailboxes (hP : LowerCase P) (hs : Sound P M.Bare w) : Mailboxes P M w := by
  constructor
  · intro r hr
    obtain ⟨key, n, t, hcols, -, -, -, hbare⟩ := hs.texts r hr
    exact ⟨t.email, ⟨key, n, t, hcols, rfl⟩, hbare⟩
  · intro r hr r' hr' howner e e' he he' hsame
    obtain ⟨key, n, t, hcols, hnormal, -, hhash, hbare⟩ := hs.texts r hr
    obtain ⟨key', n', t', hcols', hnormal', -, hhash', hbare'⟩ := hs.texts r' hr'
    obtain rfl := stores_unique he ⟨key, n, t, hcols, rfl⟩
    obtain rfl := stores_unique he' ⟨key', n', t', hcols', rfl⟩
    -- each reads as itself, so the two texts are one
    obtain ⟨a, a', ha, ha', hlower⟩ := hsame
    obtain rfl := Except.ok.inj (hbare.symm.trans ha)
    obtain rfl := Except.ok.inj (hbare'.symm.trans ha')
    dsimp only at hlower
    rw [lower_of_normal hP hnormal, lower_of_normal hP hnormal'] at hlower
    refine List.inj_on_of_nodup_map w.contacts.keys hr hr' ?_
    rw [ContactRow.key, ContactRow.key, howner, hhash, hhash', hlower]

/-- **The mailboxes.** If each address that comes in is a bare one, in the form in which it is
stored, then in every state of every run the contacts of an owner have bare addresses, and
different mailboxes. -/
theorem mailboxes_of_bare (hP : LowerCase P) {calls : List BookCall}
    (h : ∀ c ∈ calls, ∀ e, c.req.Brings P M e → M.Bare e) :
    Mailboxes P M (runCalls P M calls .fresh) :=
  (sound_fresh.run hP h).mailboxes hP

end Steps

/-! ## Two contacts -/

/-- A parser that knows two mailboxes, one of them also with a name. -/
def Outside.jane : Outside where
  parseAddress e :=
    if e = "jane <jane@x>" then .ok ⟨"jane", "jane@x"⟩
    else if e = "jane@x" then .ok ⟨"", "jane@x"⟩
    else if e = "joe@x" then .ok ⟨"", "joe@x"⟩
    else .error "mail: missing '@' or angle-addr"
  detectContentType _ := "text/plain"

/-- A contact is created. -/
def createCall (email : String) : BookCall :=
  ⟨{}, some ⟨"a@x", some 1⟩, .create (.ok { email := email })⟩

/-- Two bare addresses, and the first once more. -/
def janeAndJoe : List BookCall := ["jane@x", "joe@x", " jane@x"].map createCall

theorem mailboxes_of_bare_jane : Mailboxes .sample .jane (runCalls .sample .jane janeAndJoe .fresh) ∧
    (runCalls .sample .jane janeAndJoe .fresh).contacts.rows.map ContactRow.emailHash =
      [⟨"jane@x"⟩, ⟨"joe@x"⟩] := by
  have hnormal : ∀ email ∈ ["jane@x", "joe@x", " jane@x"],
      Params.sample.normalizeEmail email = "jane@x" ∨ Params.sample.normalizeEmail email = "joe@x" := by
    decide
  refine ⟨mailboxes_of_bare lowerCase_sample fun c hc e he => ?_, by decide⟩
  obtain ⟨email, hemail, rfl⟩ := List.mem_map.mp hc
  obtain ⟨rfl, -, -⟩ := he
  obtain heq | heq := hnormal email hemail <;> rw [heq] <;> rfl

/-- With a name before it: what is stored is not bare. -/
theorem not_mailboxes : ¬ ∀ (P : Params) (M : Outside) (calls : List BookCall), LowerCase P →
    Mailboxes P M (runCalls P M calls .fresh) := by
  intro h
  have hbare := (h .sample .jane [createCall "jane <jane@x>"] lowerCase_sample).bare
  have hrows : (runCalls .sample .jane [createCall "jane <jane@x>"] .fresh).contacts.rows.map
      (fun r => r.columns.email) = [sealText 1 0 "jane <jane@x>"] := by decide
  generalize (runCalls .sample .jane [createCall "jane <jane@x>"] .fresh).contacts.rows = rows at *
  obtain ⟨r, rfl⟩ : ∃ r, rows = [r] := List.length_eq_one_iff.mp (by simpa using congrArg List.length hrows)
  obtain ⟨e, hstores, hbare⟩ := hbare r List.mem_cons_self
  obtain rfl : e = "jane <jane@x>" := by
    obtain ⟨key, n, t, hcols, rfl⟩ := hstores
    have hsealed : sealText key n t.email = sealText 1 0 "jane <jane@x>" := by
      simpa [hcols, Columns.seal] using hrows
    simp only [sealText] at hsealed
    split at hsealed <;> simp_all
  have hread : Outside.jane.parseAddress "jane <jane@x>" = .ok ⟨"jane", "jane@x"⟩ := rfl
  rw [Outside.Bare, hread] at hbare
  exact absurd (congrArg MailAddress.name (Except.ok.inj hbare)) (by decide)

end E2Mail.Backend.AddressBook
