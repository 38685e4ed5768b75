import E2Mail.Lib.Admission
import E2Mail.Backend.Mailboxes

/-!
# The room for an import

`Import` goes by the number of contacts that it has saved, and compares it with the room there was
at the start. Among the saved are those it has overwritten.

* `comers` — the import's items at the gate of the address book.
* `importItem_tracks` — a turn of the loop is a step of that gate.
* `ImportRight` — no more than the maximum, none turned away while there is room, all counted.
* `importRight_iff` — when an import is right.
-/

namespace E2Mail.Backend.AddressBook

open Lib Lib.Admission

/-! ## Items and contacts -/

/-- The hashes of the contacts of an owner. -/
def ownerHashes (P : Params) (owner : String) (w : BookState) : List Digest :=
  (w.contacts.rows.filter fun r => r.ownerID = cryptoOwnerID P owner).map ContactRow.emailHash

/-- The item passes the check of `Import`. -/
def ImpItem.valid (P : Params) (M : Outside) (it : ImpItem) : Bool :=
  P.normalizeEmail it.email != "" && (M.parseAddress (P.normalizeEmail it.email)).isOk

/-- The hash that the item is stored under. -/
def ImpItem.key (P : Params) (it : ImpItem) : Digest := emailIndex P (P.normalizeEmail it.email)

/-- The contact under a hash can be read, if there is one. -/
def readable (P : Params) (owner : String) (dek : Option Nat) (w : BookState) (key : Digest) : Bool :=
  w.contacts.rows.all fun r =>
    !(r.ownerID = cryptoOwnerID P owner ∧ r.emailHash = key : Bool) ||
      (scanAddressContact owner dek r).isOk

section Import

variable (P : Params) (M : Outside) (A : Around) (owner : String) (dek : Option Nat)
  (overwrite : Bool)

/-- An item at the gate: one that is there already counts if it is overwritten. -/
def comer (w : BookState) (k : Nat) (it : ImpItem) : Comer Digest where
  key := it.key P
  counts := overwrite && !A.lookupFails k && readable P owner dek w (it.key P)

/-- The items at the gate, from item number `k` on. -/
def comers (w : BookState) : Nat → List ImpItem → List (Comer Digest)
  | _, [] => []
  | k, it :: rest =>
    if it.valid P M then comer P A owner dek overwrite w k it :: comers w (k + 1) rest
    else comers w (k + 1) rest

/-- What is expected of an import of `l`, from its state at each turn and its answer. -/
structure ImportRight (sess? : Option BookSession) (mode : String) (l : List ImpItem)
    (w : BookState) : Prop where
  /-- the address book is within its maximum -/
  bounded : (ownerHashes P owner (importContacts P M A sess? mode (.items l) w).2).length ≤
    max 2000 (ownerHashes P owner w).length
  /-- a valid item that is not there is stored exactly when there is room at its turn -/
  stored : ∀ before it after, l = before ++ it :: after → it.valid P M = true →
    it.key P ∉ ownerHashes P owner (importContacts P M A sess? mode (.items before) w).2 →
    (it.key P ∈ ownerHashes P owner (importContacts P M A sess? mode (.items (before ++ [it])) w).2 ↔
      (ownerHashes P owner (importContacts P M A sess? mode (.items before) w).2).length < 2000)
  /-- the counts add up -/
  counted : ∀ saved skipped invalid,
    (importContacts P M A sess? mode (.items l) w).1 = .ok (.imported saved skipped invalid) →
      saved + skipped.length + invalid = l.length

end Import

/-! ## One turn -/

section Turn

variable {P : Params} {M : Outside} {A : Around} {owner : String} {key : Nat}
  {overwrite : Bool} {w w₀ : BookState} {g : Gate Digest}

/-- The gate is where the import is. -/
structure Tracks (P : Params) (owner : String) (dek : Option Nat) (w₀ w : BookState)
    (g : Gate Digest) : Prop where
  sound : Sound P (fun _ => True) w
  inside : g.inside.Perm (ownerHashes P owner w)
  readable : ∀ key, readable P owner dek w key = readable P owner dek w₀ key

/-- The hashes are those in the owner's keys. -/
theorem ownerHashes_eq (w : BookState) : ownerHashes P owner w =
    ((w.contacts.rows.map ContactRow.key).filter fun k => k.1 = cryptoOwnerID P owner).map
      Prod.snd := by
  rw [ownerHashes, List.filter_map, List.map_map]
  simp only [Function.comp_def, ContactRow.key]
  exact rfl

theorem key_mem_iff {r : ContactRow} (hown : r.ownerID = cryptoOwnerID P owner) :
    r.key ∈ w.contacts.rows.map ContactRow.key ↔ r.emailHash ∈ ownerHashes P owner w := by
  rw [ownerHashes_eq, ← hown, List.mem_map, List.mem_map]
  constructor
  · rintro ⟨s, hs, hkey⟩
    exact ⟨r.key, List.mem_filter.mpr ⟨List.mem_map.mpr ⟨s, hs, hkey⟩, by simp [ContactRow.key]⟩, rfl⟩
  · rintro ⟨k, hk, hhash⟩
    obtain ⟨hk, hkown⟩ := List.mem_filter.mp hk
    obtain ⟨s, hs, rfl⟩ := List.mem_map.mp hk
    exact ⟨s, hs, Prod.ext (of_decide_eq_true hkown) hhash⟩

theorem valid_iff {it : ImpItem} : it.valid P M = true ↔
    P.normalizeEmail it.email ≠ "" ∧ ∃ a, M.parseAddress (P.normalizeEmail it.email) = .ok a := by
  rw [ImpItem.valid, Bool.and_eq_true, bne_iff_ne]
  refine and_congr_right fun _ => ?_
  cases M.parseAddress (P.normalizeEmail it.email) <;> simp [Except.isOk, Except.toBool]

theorem readable_iff_scan {dek : Option Nat} {hash : Digest} : readable P owner dek w hash = true ↔
    ∀ r ∈ w.contacts.rows, r.ownerID = cryptoOwnerID P owner → r.emailHash = hash →
      ∃ c, scanAddressContact owner dek r = .ok c := by
  rw [readable, List.all_eq_true]
  refine forall₂_congr fun r _ => ?_
  have hok : (scanAddressContact owner dek r).isOk = true ↔
      ∃ c, scanAddressContact owner dek r = .ok c := by
    cases scanAddressContact owner dek r <;> simp [Except.isOk, Except.toBool]
  rw [Bool.or_eq_true, hok]
  by_cases hmine : r.ownerID = cryptoOwnerID P owner ∧ r.emailHash = hash
  · simp [hmine]
  · simp only [hmine, decide_false, Bool.not_false, true_or, true_iff]
    exact fun h h' => absurd ⟨h, h'⟩ hmine

/-- **The lookup** finds a contact that is there and can be read, unless it fails. -/
theorem getByEmail_isSome (hP : LowerCase P) {dek : Option Nat} (k : Nat) (e : String) :
    (Store.getAddressContactByEmail P A k owner (P.normalizeEmail e) dek w).isSome = true ↔
      A.lookupFails k = false ∧ emailIndex P (P.normalizeEmail e) ∈ ownerHashes P owner w ∧
        readable P owner dek w (emailIndex P (P.normalizeEmail e)) = true := by
  rw [Store.getAddressContactByEmail, hP.normalizeEmail_idem]
  by_cases hfails : A.lookupFails k = true
  · rw [if_pos hfails]
    simp [hfails]
  rw [if_neg hfails]
  have hwork : A.lookupFails k = false := by simpa using hfails
  rw [readable_iff_scan]
  split
  · rename_i hnone
    have hno := List.find?_eq_none.mp hnone
    refine iff_of_false (by simp) ?_
    rintro ⟨-, hmem, -⟩
    obtain ⟨r, hr, hhash⟩ := List.mem_map.mp hmem
    obtain ⟨hr, hown⟩ := List.mem_filter.mp hr
    exact hno r hr (by simpa [hhash] using hown)
  · rename_i r hr
    have hmine : r.ownerID = cryptoOwnerID P owner ∧
        r.emailHash = emailIndex P (P.normalizeEmail e) := by simpa using List.find?_some hr
    have hmem := List.mem_of_find?_eq_some hr
    have hin : emailIndex P (P.normalizeEmail e) ∈ ownerHashes P owner w :=
      List.mem_map.mpr ⟨r, List.mem_filter.mpr ⟨hmem, by simpa using hmine.1⟩, hmine.2⟩
    constructor
    · intro hscan
      refine ⟨hwork, hin, fun s hs hown hhash => ?_⟩
      obtain rfl : s = r := List.inj_on_of_nodup_map w.contacts.keys hs hmem (by
        rw [ContactRow.key, ContactRow.key, hown, hhash, hmine.1, hmine.2])
      cases hs : scanAddressContact owner dek s with
      | error e =>
        rw [hs] at hscan
        cases hscan
      | ok c => exact ⟨c, rfl⟩
    · rintro ⟨-, -, hall⟩
      obtain ⟨c, hc⟩ := hall r hmem hmine.1 hmine.2
      rw [hc]
      rfl

/-! ## Writes that succeed -/

/-- A contact is created. -/
theorem createAddressContact_ok {k : Nat} {c : Contact} {t : ContactTable}
    (hexec : A.execErr k = none) (howner : c.ownerEmail ≠ "") (hemail : c.columns.email ≠ "")
    (hinsert : w.contacts.insert (c.newRow P A k key w.nonces) = .ok t) :
    ∃ c' n, Store.createAddressContact P A k c (some key) w =
      (.ok c', { w with nonces := n, contacts := t }) := by
  rw [Contact.newRow, Contact.newTexts] at hinsert
  unfold Store.createAddressContact
  rw [if_neg (not_or.mpr ⟨howner, hemail⟩)]
  dsimp only
  rw [wrapFields_some, hexec]
  dsimp only
  rw [Option.getD_some, hinsert]
  exact ⟨_, _, rfl⟩

/-- A contact is not created: there is one with its hash. -/
theorem createAddressContact_unique {k : Nat} {c : Contact} {e : String}
    (hexec : A.execErr k = none) (howner : c.ownerEmail ≠ "") (hemail : c.columns.email ≠ "")
    (hinsert : w.contacts.insert (c.newRow P A k key w.nonces) = .error e) :
    ∃ n, Store.createAddressContact P A k c (some key) w =
      (.error { text := "failed to create contact: " ++ e }, { w with nonces := n }) := by
  rw [Contact.newRow, Contact.newTexts] at hinsert
  unfold Store.createAddressContact
  rw [if_neg (not_or.mpr ⟨howner, hemail⟩)]
  dsimp only
  rw [wrapFields_some, hexec]
  dsimp only
  rw [Option.getD_some, hinsert]
  exact ⟨_, rfl⟩

theorem insert_ok {t u : ContactTable} {r : ContactRow} (h : t.insert r = .ok u) :
    r.key ∉ t.rows.map ContactRow.key ∧ u.rows = t.rows ++ [r] := by
  rw [ContactTable.insert] at h
  split at h
  · cases h
  split at h
  · cases h
  · rename_i hkey
    exact ⟨hkey, by rw [← Except.ok.inj h]⟩

theorem mem_of_insert_error {t : ContactTable} {r : ContactRow} {e : String}
    (h : t.insert r = .error e) (hid : r.id ∉ t.rows.map ContactRow.id) :
    r.key ∈ t.rows.map ContactRow.key := by
  rw [ContactTable.insert, dif_neg hid] at h
  split at h
  · assumption
  · cases h

/-- The two errors of an `INSERT` name their constraint. -/
theorem insert_error {t : ContactTable} {r : ContactRow} {e : String} (h : t.insert r = .error e) :
    (Text.after "UNIQUE".toList ("failed to create contact: " ++ e).toList).isSome = true := by
  rw [ContactTable.insert] at h
  split at h
  · rw [← Except.error.inj h]
    decide
  split at h
  · rw [← Except.error.inj h]
    decide
  · cases h

/-- A contact of the owner is updated under its hash. -/
theorem updateAddressContact_ok {k : Nat} {c : Contact} {r : ContactRow}
    (hexec : A.execErr k = none) (hid : c.id ≠ "") (howner : c.ownerEmail ≠ "")
    (hr : r ∈ w.contacts.rows) (hown : r.ownerID = cryptoOwnerID P c.ownerEmail) (hrid : r.id = c.id)
    (hhash : r.emailHash = emailIndex P (P.normalizeEmail c.columns.email)) :
    ∃ c' w', Store.updateAddressContact P A k c (some key) w = (.ok c', w') ∧
      w'.contacts.rows = ContactTable.written r.ownerID r.id r.emailHash
        (Columns.seal key w.nonces (c.texts P)) c.avatarPath (A.now k) w.contacts.rows := by
  obtain ⟨n, v, hupdate, hrows⟩ := update_eq hr (Columns.seal key w.nonces (c.texts P)) c.avatarPath
    (A.now k)
  rw [hown, hrid, hhash, Contact.texts] at hupdate
  unfold Store.updateAddressContact
  rw [if_neg (not_or.mpr ⟨hid, howner⟩)]
  dsimp only
  rw [wrapFields_some, hexec]
  dsimp only
  rw [hupdate]
  exact ⟨_, _, rfl, hrows⟩

/-! ## A turn is a step of the gate -/

/-- What is assumed around an import: its writes succeed, for an owner with a key, and uuids are
different texts. -/
structure Writable (P : Params) (A : Around) (owner : String) : Prop where
  exec : ∀ k, A.execErr k = none
  owner : owner ≠ ""
  uuids : Function.Injective P.uuid
  uuid : ∀ n, P.uuid n ≠ ""

theorem scan_seal {r : ContactRow} {n : Nat} {t : Columns String} (h : r.columns = Columns.seal key n t) :
    ∃ c, scanAddressContact owner (some key) r = .ok c := by
  rw [scanAddressContact, h, unwrapFields_seal]
  exact ⟨_, rfl⟩

/-- An overwritten contact stays where it is, and can be read. -/
theorem Tracks.written (ht : Tracks P owner (some key) w₀ w g) {w' : BookState} {r : ContactRow}
    (hsound : Sound P (fun _ => True) w') (hr : r ∈ w.contacts.rows)
    (hread : ∃ c, scanAddressContact owner (some key) r = .ok c) {n : Nat} {t : Columns String}
    {path : String} {now : Nat}
    (hrows : w'.contacts.rows = ContactTable.written r.ownerID r.id r.emailHash
      (Columns.seal key n t) path now w.contacts.rows) :
    Tracks P owner (some key) w₀ w' g := by
  have hsame : ∀ s ∈ w.contacts.rows, s.ownerID = r.ownerID ∧ s.id = r.id → s = r :=
    fun s hs hmine => List.inj_on_of_nodup_map w.contacts.ids hs hr hmine.2
  refine ⟨hsound, ht.inside.trans ?_, fun hash => (Bool.eq_iff_iff.mpr ?_).trans (ht.readable hash)⟩
  · refine .of_eq ?_
    rw [ownerHashes_eq, ownerHashes_eq, hrows, map_key_written hr]
  · rw [readable_iff_scan, readable_iff_scan, hrows, ContactTable.written]
    constructor
    · intro h s hs hown hhash
      by_cases hmine : s.ownerID = r.ownerID ∧ s.id = r.id
      · obtain rfl := hsame s hs hmine
        exact hread
      · exact h s (List.mem_map.mpr ⟨s, hs, if_neg hmine⟩) hown hhash
    · intro h s' hs' hown hhash
      obtain ⟨s, hs, rfl⟩ := List.mem_map.mp hs'
      by_cases hmine : s.ownerID = r.ownerID ∧ s.id = r.id
      · rw [if_pos hmine]
        exact scan_seal rfl
      · rw [if_neg hmine] at hown hhash ⊢
        exact h s hs hown hhash

/-- A created contact is there, and can be read. -/
theorem Tracks.inserted (ht : Tracks P owner (some key) w₀ w g) {w' : BookState} {r : ContactRow}
    (hsound : Sound P (fun _ => True) w') (hown : r.ownerID = cryptoOwnerID P owner)
    (hrows : w'.contacts.rows = w.contacts.rows ++ [r]) {n : Nat} {t : Columns String}
    (hcols : r.columns = Columns.seal key n t) (hnew : r.emailHash ∉ ownerHashes P owner w)
    (counter : Nat) : Tracks P owner (some key) w₀ w' ⟨r.emailHash :: g.inside, counter⟩ := by
  refine ⟨hsound, ?_, fun hash => (Bool.eq_iff_iff.mpr ?_).trans (ht.readable hash)⟩
  · have hhashes : ownerHashes P owner w' = ownerHashes P owner w ++ [r.emailHash] := by
      rw [ownerHashes, hrows, List.filter_append, List.filter_singleton, ownerHashes]
      simp [hown]
    rw [hhashes]
    exact (ht.inside.cons _).trans (List.perm_append_singleton _ _).symm
  · rw [readable_iff_scan, readable_iff_scan, hrows]
    constructor
    · intro h s hs
      exact h s (List.mem_append_left _ hs)
    · intro h s hs hsown hhash
      rcases List.mem_append.mp hs with hs | hs
      · exact h s hs hsown hhash
      · obtain rfl := List.mem_singleton.mp hs
        exact scan_seal hcols

theorem Tracks.congr (ht : Tracks P owner (some key) w₀ w g) {w' : BookState} {g' : Gate Digest}
    (hrows : w'.contacts.rows = w.contacts.rows) (huuids : w.uuids ≤ w'.uuids)
    (hinside : g'.inside = g.inside) : Tracks P owner (some key) w₀ w' g' := by
  have hread : ∀ hash, AddressBook.readable P owner (some key) w' hash =
      AddressBook.readable P owner (some key) w hash := by
    intro hash
    simp only [AddressBook.readable, hrows]
  refine ⟨ht.sound.congr hrows huuids, ?_, fun hash => (hread hash).trans (ht.readable hash)⟩
  rw [hinside, ownerHashes, hrows]
  exact ht.inside

/-- How many items a tally has counted. -/
def Tally.total (tally : Tally) : Nat := tally.saved + tally.skipped.length + tally.invalid

/-! ## The cases of a turn -/

section Cases

variable {dek : Option Nat} {remaining k : Nat} {it : ImpItem} {tally : Tally}

theorem importItem_invalid (h : it.valid P M = false) :
    importItem P M A owner dek overwrite remaining k it tally w =
      ({ tally with invalid := tally.invalid + 1 }, w) := by
  unfold importItem
  dsimp only
  split
  · rfl
  rename_i hne
  split
  · rfl
  rename_i a ha
  exact absurd (valid_iff.mpr ⟨hne, a, ha⟩) (by rw [h]; decide)

theorem importItem_found (h : it.valid P M = true) {exist : Contact}
    (hexist : Store.getAddressContactByEmail P A k owner (P.normalizeEmail it.email) dek w =
      some exist) :
    importItem P M A owner dek overwrite remaining k it tally w =
      if overwrite then tally.updated (P.normalizeEmail it.email)
        (Store.updateAddressContact P A k (it.overwrite exist) dek w)
      else ({ tally with skipped := tally.skipped ++ [P.normalizeEmail it.email] }, w) := by
  obtain ⟨hne, a, ha⟩ := valid_iff.mp h
  unfold importItem
  dsimp only
  rw [if_neg hne, ha, hexist]

theorem importItem_missing (h : it.valid P M = true)
    (hnone : Store.getAddressContactByEmail P A k owner (P.normalizeEmail it.email) dek w = none) :
    importItem P M A owner dek overwrite remaining k it tally w =
      if remaining ≠ 0 ∧ tally.saved ≥ remaining then
        ({ tally with skipped := tally.skipped ++ [P.normalizeEmail it.email] }, w)
      else importNew P A owner dek k (P.normalizeEmail it.email) it tally w := by
  obtain ⟨hne, a, ha⟩ := valid_iff.mp h
  unfold importItem
  dsimp only
  rw [if_neg hne, ha, hnone]

theorem comer_key (owner : String) (dek : Option Nat) (overwrite : Bool) (k : Nat) (it : ImpItem) :
    (comer P A owner dek overwrite w k it).key = it.key P := by
  rw [comer]

theorem Tally.total_skipped (e : String) :
    ({ tally with skipped := tally.skipped ++ [e] } : Tally).total = tally.total + 1 := by
  simp only [Tally.total, List.length_append, List.length_singleton]
  omega

theorem Tally.total_saved :
    ({ tally with saved := tally.saved + 1 } : Tally).total = tally.total + 1 := by
  simp only [Tally.total]
  omega

theorem Tally.total_invalid :
    ({ tally with invalid := tally.invalid + 1 } : Tally).total = tally.total + 1 := by
  simp only [Tally.total]
  omega

end Cases

/-- The contact of an import item. -/
def ImpItem.contact (it : ImpItem) (owner id email : String) : Contact where
  id := id
  ownerEmail := owner
  columns :=
    { email := email
      displayName := if trimSpace it.displayName = "" then email else trimSpace it.displayName
      givenName := trimSpace it.givenName
      familyName := trimSpace it.familyName
      note := trimSpace it.note
      source := "import" }

/-- What a turn leaves behind, where the gate has taken its step. -/
structure Turned (P : Params) (owner : String) (dek : Option Nat) (w₀ : BookState)
    (g : Gate Digest) (tally : Tally) (next : Tally × BookState) : Prop where
  tracks : Tracks P owner dek w₀ next.2 g
  saved : next.1.saved = g.counter
  total : next.1.total = tally.total + 1

/-- An item that is passed over. -/
theorem Tracks.skip (ht : Tracks P owner (some key) w₀ w g) {tally : Tally}
    (hsaved : tally.saved = g.counter) (e : String) :
    Turned P owner (some key) w₀ g tally ({ tally with skipped := tally.skipped ++ [e] }, w) :=
  ⟨ht, hsaved, Tally.total_skipped e⟩

/-- A contact that is created, or is there already. -/
theorem importNew_turned (hP : LowerCase P) (hw : Writable P A owner)
    (ht : Tracks P owner (some key) w₀ w g) {tally : Tally} (hsaved : tally.saved = g.counter)
    (k : Nat) {it : ImpItem} (hvalid : it.valid P M = true) :
    Turned P owner (some key) w₀
      (if it.key P ∈ g.inside then g else ⟨it.key P :: g.inside, g.counter + 1⟩) tally
      (importNew P A owner (some key) k (P.normalizeEmail it.email) it tally w) := by
  obtain ⟨hne, -⟩ := valid_iff.mp hvalid
  have hidem := hP.normalizeEmail_idem it.email
  have hnew : importNew P A owner (some key) k (P.normalizeEmail it.email) it tally w =
      tally.created (P.normalizeEmail it.email) (Store.createAddressContact P A k
        (it.contact owner (P.uuid w.uuids) (P.normalizeEmail it.email)) (some key)
        (newID P w).2) := rfl
  have hhash : ((it.contact owner (P.uuid w.uuids) (P.normalizeEmail it.email)).newRow P A k key
      (newID P w).2.nonces).emailHash = it.key P := by
    rw [Contact.newRow, ImpItem.contact, ImpItem.key, hidem]
  have hsound : Sound P (fun _ => True) (Store.createAddressContact P A k
      (it.contact owner (P.uuid w.uuids) (P.normalizeEmail it.email)) (some key) (newID P w).2).2 :=
    ht.sound.newID.create hP k (Nat.lt_succ_self w.uuids) rfl trivial
  have hown : ((it.contact owner (P.uuid w.uuids) (P.normalizeEmail it.email)).newRow P A k key
      (newID P w).2.nonces).ownerID = cryptoOwnerID P owner := by
    rw [Contact.newRow, ImpItem.contact]
  rw [hnew]
  generalize hc : it.contact owner (P.uuid w.uuids) (P.normalizeEmail it.email) = c at *
  have hcowner : c.ownerEmail ≠ "" := by
    rw [← hc, ImpItem.contact]
    exact hw.owner
  have hcemail : c.columns.email ≠ "" := by
    rw [← hc, ImpItem.contact]
    exact hne
  cases hinsert : (newID P w).2.contacts.insert (c.newRow P A k key (newID P w).2.nonces) with
  | error e =>
    -- the id is a new one, so there is a contact with the hash
    have hid : (c.newRow P A k key (newID P w).2.nonces).id ∉
        (newID P w).2.contacts.rows.map ContactRow.id := by
      rw [Contact.newRow, ← hc, ImpItem.contact, List.mem_map]
      rintro ⟨r, hr, hrid⟩
      obtain ⟨n, hn, hdrawn⟩ := ht.sound.drawn r hr
      exact absurd (hw.uuids (hdrawn.symm.trans hrid)) (Nat.ne_of_lt hn)
    have hin : it.key P ∈ g.inside := by
      rw [ht.inside.mem_iff, ← hhash]
      exact (key_mem_iff hown).mp (mem_of_insert_error hinsert hid)
    obtain ⟨n, hcreate⟩ := createAddressContact_unique (hw.exec k) hcowner hcemail hinsert
    rw [if_pos hin, hcreate, Tally.created]
    dsimp only
    rw [if_pos (insert_error hinsert)]
    exact ⟨ht.congr rfl (Nat.le_succ _) rfl, hsaved, Tally.total_skipped _⟩
  | ok t =>
    obtain ⟨hkey, hrows⟩ := insert_ok hinsert
    have hnot : it.key P ∉ ownerHashes P owner w := by
      rw [← hhash]
      exact (key_mem_iff hown).not.mp hkey
    obtain ⟨c', n, hcreate⟩ := createAddressContact_ok (hw.exec k) hcowner hcemail hinsert
    rw [hcreate] at hsound ⊢
    rw [if_neg (ht.inside.mem_iff.not.mpr hnot), Tally.created]
    refine ⟨?_, congrArg (· + 1) hsaved, Tally.total_saved⟩
    rw [← hhash] at hnot ⊢
    exact ht.inserted hsound hown hrows rfl hnot _

/-- **A turn of `Import`** is a step of the gate, or none for an invalid item. -/
theorem importItem_turned (hP : LowerCase P) (hw : Writable P A owner)
    (ht : Tracks P owner (some key) w₀ w g) {tally : Tally} (hsaved : tally.saved = g.counter)
    {remaining : Nat} (hremaining : 0 < remaining) (k : Nat) (it : ImpItem) :
    Turned P owner (some key) w₀
      (if it.valid P M then
        Admission.step remaining g (comer P A owner (some key) overwrite w₀ k it) else g) tally
      (importItem P M A owner (some key) overwrite remaining k it tally w) := by
  cases hvalid : it.valid P M with
  | false =>
    rw [importItem_invalid hvalid]
    exact ⟨ht, hsaved, Tally.total_invalid⟩
  | true =>
    rw [if_pos rfl]
    have hmem : it.key P ∈ g.inside ↔ it.key P ∈ ownerHashes P owner w := ht.inside.mem_iff
    have hfound := @getByEmail_isSome P A owner w hP (some key) k it.email
    have hkey := @comer_key P A w₀ owner (some key) overwrite k it
    cases hlookup : Store.getAddressContactByEmail P A k owner (P.normalizeEmail it.email)
        (some key) w with
    | none =>
      -- a contact that is there is not counted, since the lookup does not find it
      have hcounts : it.key P ∈ g.inside →
          (comer P A owner (some key) overwrite w₀ k it).counts = false := by
        intro hin
        rw [hlookup] at hfound
        have hno := hfound.not.mp (by simp)
        rw [comer, ← ht.readable]
        by_contra hcount
        simp only [Bool.not_eq_false, Bool.and_eq_true, Bool.not_eq_true'] at hcount
        exact hno ⟨hcount.1.2, hmem.mp hin, hcount.2⟩
      rw [importItem_missing hvalid hlookup, Admission.step, hkey]
      by_cases hfull : remaining ≠ 0 ∧ tally.saved ≥ remaining
      · rw [if_pos hfull]
        have hstop : ¬ g.counter < remaining := by omega
        by_cases hin : it.key P ∈ g.inside
        · rw [if_pos hin, hcounts hin]
          exact ht.skip hsaved _
        · rw [if_neg hin, if_neg hstop]
          exact ht.skip hsaved _
      · rw [if_neg hfull]
        have hgo : g.counter < remaining := by omega
        have hturn := importNew_turned hP hw ht hsaved k hvalid
        by_cases hin : it.key P ∈ g.inside
        · rw [if_pos hin, hcounts hin]
          rw [if_pos hin] at hturn
          exact hturn
        · rw [if_neg hin, if_pos hgo]
          rw [if_neg hin] at hturn
          exact hturn
    | some exist =>
      rw [hlookup] at hfound
      obtain ⟨hworks, hin, hread⟩ := hfound.mp rfl
      rw [importItem_found hvalid hlookup, Admission.step, hkey, if_pos (hmem.mpr hin)]
      cases overwrite with
      | false => exact ht.skip hsaved _
      | true =>
        have hcounts : (comer P A owner (some key) true w₀ k it).counts = true := by
          rw [comer, hworks, ← ht.readable]
          exact hread
        obtain ⟨hscanned, r, hr, hown, hrhash, hrid, hhash⟩ := ht.sound.getByEmail hlookup
        have hidem : P.normalizeEmail (it.overwrite exist).columns.email = exist.columns.email := by
          rw [ImpItem.overwrite, hscanned.normal]
        have hidne : (it.overwrite exist).id ≠ "" := by
          obtain ⟨n, -, hdrawn⟩ := ht.sound.drawn r hr
          rw [ImpItem.overwrite, ← hrid, hdrawn]
          exact hw.uuid n
        have howner : (it.overwrite exist).ownerEmail = owner := by
          rw [ImpItem.overwrite, hscanned.owner]
        have hsound : Sound P (fun _ => True)
            (Store.updateAddressContact P A k (it.overwrite exist) (some key) w).2 :=
          ht.sound.update hP k (by rw [ImpItem.overwrite]; exact hscanned.source) trivial
        obtain ⟨c', w', hupdate, hrows⟩ := @updateAddressContact_ok P A key w k _ r (hw.exec k) hidne
          (howner.symm ▸ hw.owner) hr (howner.symm ▸ hown) (by rw [ImpItem.overwrite]; exact hrid)
          (by rw [hidem, hhash, emailIndex_normal hscanned.normal])
        rw [hupdate] at hsound ⊢
        rw [if_pos rfl, hcounts, Tally.updated]
        refine ⟨?_, congrArg (· + 1) hsaved, Tally.total_saved⟩
        rw [hP.normalizeEmail_idem] at hrhash
        have hscan := readable_iff_scan.mp hread r hr hown hrhash
        exact (ht.written hsound hr hscan hrows).congr rfl (Nat.le_refl _) rfl

end Turn

/-! ## The import -/

section Whole

variable {P : Params} {M : Outside} {A : Around} {owner mode : String} {key : Nat}
  {overwrite : Bool} {w w₀ : BookState} {g : Gate Digest} {sess? : Option BookSession}

theorem foldl_comers {dek : Option Nat} (remaining k : Nat) (it : ImpItem) (rest : List ImpItem)
    (g : Gate Digest) :
    (comers P M A owner dek overwrite w₀ k (it :: rest)).foldl (Admission.step remaining) g =
      (comers P M A owner dek overwrite w₀ (k + 1) rest).foldl (Admission.step remaining)
        (if it.valid P M then Admission.step remaining g (comer P A owner dek overwrite w₀ k it)
          else g) := by
  rw [comers]
  split
  · rw [List.foldl_cons]
  · rfl

/-- The loop of `Import` passes its items through the gate. -/
theorem importItems_turned (hP : LowerCase P) (hw : Writable P A owner)
    (ht : Tracks P owner (some key) w₀ w g) {tally : Tally} (hsaved : tally.saved = g.counter)
    {remaining : Nat} (hremaining : 0 < remaining) (k : Nat) (l : List ImpItem) :
    Tracks P owner (some key) w₀
        (importItems P M A owner (some key) overwrite remaining k l tally w).2
        ((comers P M A owner (some key) overwrite w₀ k l).foldl (Admission.step remaining) g) ∧
      (importItems P M A owner (some key) overwrite remaining k l tally w).1.total =
        tally.total + l.length := by
  induction l generalizing k w g tally with
  | nil => exact ⟨ht, rfl⟩
  | cons it rest ih =>
    have hturned := @importItem_turned P M A owner key overwrite w w₀ g hP hw ht tally hsaved
      remaining hremaining k it
    obtain ⟨hend, hcount⟩ := ih hturned.tracks hturned.saved (k + 1)
    rw [foldl_comers, importItems]
    refine ⟨hend, hcount.trans ?_⟩
    rw [hturned.total, List.length_cons]
    omega

/-- The items at the gate are the valid ones, each with its number. -/
theorem comers_split {dek : Option Nat} {Φ : List (Comer Digest) → Comer Digest → Prop} (k : Nat)
    (l : List ImpItem) :
    (∀ b c a, comers P M A owner dek overwrite w₀ k l = b ++ c :: a → Φ b c) ↔
      ∀ before it after, l = before ++ it :: after → it.valid P M = true →
        Φ (comers P M A owner dek overwrite w₀ k before)
          (comer P A owner dek overwrite w₀ (k + before.length) it) := by
  induction l generalizing k Φ with
  | nil =>
    refine iff_of_true (fun b c a heq => ?_) fun before it after heq => ?_
    · simp [comers] at heq
    · simp at heq
  | cons it rest ih =>
    have hnext : ∀ before : List ImpItem, k + 1 + before.length = k + (it :: before).length := by
      intro before
      rw [List.length_cons]
      omega
    cases hvalid : it.valid P M with
    | false =>
      have hcomers : ∀ before, comers P M A owner dek overwrite w₀ k (it :: before) =
          comers P M A owner dek overwrite w₀ (k + 1) before := by
        intro before
        rw [comers, hvalid, if_neg (by decide)]
      rw [hcomers, ih]
      constructor
      · intro h before d after heq hd
        cases before with
        | nil =>
          obtain ⟨rfl, rfl⟩ := List.cons.inj heq
          exact absurd hd (by rw [hvalid]; decide)
        | cons b before =>
          obtain ⟨rfl, rfl⟩ := List.cons.inj heq
          rw [hcomers, ← hnext]
          exact h before d after rfl hd
      · intro h before d after heq hd
        rw [← hcomers, hnext]
        exact h (it :: before) d after (congrArg (it :: ·) heq) hd
    | true =>
      have hcomers : ∀ before, comers P M A owner dek overwrite w₀ k (it :: before) =
          comer P A owner dek overwrite w₀ k it ::
            comers P M A owner dek overwrite w₀ (k + 1) before := by
        intro before
        rw [comers, hvalid, if_pos rfl]
      rw [hcomers]
      constructor
      · intro h before d after heq hd
        cases before with
        | nil =>
          obtain ⟨rfl, rfl⟩ := List.cons.inj heq
          exact h [] _ _ rfl
        | cons b before =>
          obtain ⟨rfl, rfl⟩ := List.cons.inj heq
          rw [hcomers, ← hnext]
          have hrest := (@ih (fun b c => Φ (comer P A owner dek overwrite w₀ k it :: b) c) (k + 1)).mp
            fun b c a hb => h (_ :: b) c a (congrArg (_ :: ·) hb)
          exact hrest before d after rfl hd
      · intro h b c a heq
        cases b with
        | nil =>
          obtain ⟨rfl, -⟩ := List.cons.inj heq
          exact h [] it rest rfl hvalid
        | cons d b =>
          obtain ⟨rfl, hb⟩ := List.cons.inj heq
          have hrest := (@ih (fun b c => Φ (comer P A owner dek overwrite w₀ k it :: b) c) (k + 1)).mpr
            fun before d after hrest hd => by
              rw [← hcomers, hnext]
              exact h (it :: before) d after (congrArg (it :: ·) hrest) hd
          exact hrest b c a hb

theorem comers_concat {dek : Option Nat} (k : Nat) (before : List ImpItem) {it : ImpItem}
    (h : it.valid P M = true) :
    comers P M A owner dek overwrite w₀ k (before ++ [it]) =
      comers P M A owner dek overwrite w₀ k before ++
        [comer P A owner dek overwrite w₀ (k + before.length) it] := by
  induction before generalizing k with
  | nil => simp [comers, h]
  | cons b before ih =>
    rw [List.cons_append, comers, comers, ih]
    have hnext : k + 1 + before.length = k + (b :: before).length := by
      rw [List.length_cons]
      omega
    rw [hnext]
    split
    · rw [List.cons_append]
    · rfl

/-- The state after some items. -/
theorem importContacts_state {dek : Option Nat} (hctx : ownerFromCtx P sess? = some (owner, dek))
    (l : List ImpItem) :
    (importContacts P M A sess? mode (.items l) w).2 =
      if 2000 ≤ Store.countAddressContacts P A owner w then w
      else (importItems P M A owner dek (P.normalizeEmail mode = "overwrite")
        (2000 - Store.countAddressContacts P A owner w) 0 l {} w).2 := by
  unfold importContacts
  rw [hctx]
  dsimp only
  cases l with
  | nil => simp [importItems]
  | cons it rest =>
    rw [if_neg (by simp)]
    split <;> rfl

/-- The address book and the counter of the import if all new contacts of some items were let in. -/
def letIn (P : Params) (M : Outside) (A : Around) (owner : String) (dek : Option Nat) (mode : String)
    (w : BookState) (l : List ImpItem) : Gate Digest :=
  (comers P M A owner dek (P.normalizeEmail mode = "overwrite") w 0 l).foldl enter
    ⟨ownerHashes P owner w, 0⟩

/-- The turns are right if and only if the gate is fair, whatever the lists are in which the
contacts stand. -/
theorem stored_iff_fair {dek : Option Nat} {limit : Nat} {g : Gate Digest}
    {hashes : List ImpItem → List Digest} (h : ∀ l, ((comers P M A owner dek overwrite w₀ 0 l).foldl
      (Admission.step limit) g).inside.Perm (hashes l)) (l : List ImpItem) :
    (∀ before it after, l = before ++ it :: after → it.valid P M = true →
      it.key P ∉ hashes before → (it.key P ∈ hashes (before ++ [it]) ↔ (hashes before).length < 2000)) ↔
      Fair 2000 limit (comers P M A owner dek overwrite w₀ 0 l) g := by
  rw [fair_iff_forall]
  refine Iff.trans ?_ (comers_split 0 l).symm
  refine forall_congr' fun before => forall_congr' fun it => forall_congr' fun after =>
    imp_congr_right fun _ => imp_congr_right fun hvalid => ?_
  have hkey := @comer_key P A w₀ owner dek overwrite (0 + before.length) it
  have hstep := @mem_step_iff Digest _ limit ((comers P M A owner dek overwrite w₀ 0 before).foldl
    (Admission.step limit) g) (comer P A owner dek overwrite w₀ (0 + before.length) it)
  rw [hkey] at hstep ⊢
  rw [← (h before).mem_iff, ← (h _).mem_iff, ← (h before).length_eq, comers_concat 0 before hvalid,
    List.foldl_concat]
  exact forall_congr' fun hnew => iff_congr (hstep hnew) Iff.rfl

/-- An import that is refused is right: there is no room. -/
theorem importRight_of_full {dek : Option Nat} (hctx : ownerFromCtx P sess? = some (owner, dek))
    (hfull : 2000 ≤ Store.countAddressContacts P A owner w) (l : List ImpItem) :
    2000 ≤ (ownerHashes P owner w).length ∧ ImportRight P M A owner sess? mode l w := by
  have hcount : (ownerHashes P owner w).length = Store.countAddressContacts P A owner w := by
    rw [Store.countAddressContacts] at hfull ⊢
    split at hfull
    · exact absurd hfull (by decide)
    · rename_i hworks
      rw [if_neg hworks, ownerHashes, List.length_map, List.countP_eq_length_filter]
  have hstay : ∀ l, (importContacts P M A sess? mode (.items l) w).2 = w := by
    intro l
    rw [importContacts_state hctx, if_pos hfull]
  refine ⟨hcount ▸ hfull, ?_, ?_, ?_⟩
  · rw [hstay]
    exact Nat.le_max_right _ _
  · intro before it after _ _ hnew
    rw [hstay] at hnew ⊢
    rw [hstay]
    exact iff_of_false hnew (by omega)
  · intro saved skipped invalid hanswer
    unfold importContacts at hanswer
    rw [hctx] at hanswer
    dsimp only at hanswer
    rw [if_pos hfull] at hanswer
    split at hanswer <;> cases hanswer

/-- The answer of an import that is not refused. -/
theorem importContacts_answer {dek : Option Nat} (hctx : ownerFromCtx P sess? = some (owner, dek))
    (hroom : ¬ 2000 ≤ Store.countAddressContacts P A owner w) {l : List ImpItem} {saved : Nat}
    {skipped : List String} {invalid : Nat}
    (h : (importContacts P M A sess? mode (.items l) w).1 = .ok (.imported saved skipped invalid)) :
    saved + skipped.length + invalid = (importItems P M A owner dek
      (P.normalizeEmail mode = "overwrite") (2000 - Store.countAddressContacts P A owner w) 0 l {}
        w).1.total := by
  unfold importContacts at h
  rw [hctx] at h
  dsimp only at h
  split at h
  · cases h
  obtain ⟨rfl, rfl, rfl⟩ := BookPayload.imported.inj (Except.ok.inj h)
  rfl

/-- **An import is right** if and only if the number of contacts that it would have counted as
saved tells, for each new contact, whether there is room for it. -/
theorem importRight_iff (hP : LowerCase P) (hw : Writable P A owner) (calls : List BookCall)
    (hctx : ownerFromCtx P sess? = some (owner, some key)) (l : List ImpItem) :
    ImportRight P M A owner sess? mode l (runCalls P M calls .fresh) ↔
      ∀ before it after, l = before ++ it :: after → it.valid P M = true →
        it.key P ∉ (letIn P M A owner (some key) mode (runCalls P M calls .fresh) before).inside →
        ((letIn P M A owner (some key) mode (runCalls P M calls .fresh) before).counter <
            2000 - Store.countAddressContacts P A owner (runCalls P M calls .fresh) ↔
          (letIn P M A owner (some key) mode (runCalls P M calls .fresh) before).inside.length <
            2000) := by
  have hsound : Sound P (fun _ => True) (runCalls P M calls .fresh) :=
    sound_fresh.run hP fun _ _ _ _ => trivial
  generalize runCalls P M calls .fresh = w at hsound
  by_cases hfull : 2000 ≤ Store.countAddressContacts P A owner w
  · obtain ⟨hroom, hright⟩ := @importRight_of_full P M A owner mode w sess? (some key) hctx hfull l
    refine iff_of_true hright fun before it after _ _ _ => ?_
    have hle : (ownerHashes P owner w).length ≤
        (letIn P M A owner (some key) mode w before).inside.length := by
      rw [letIn]
      exact (le_foldl_enter _ ⟨ownerHashes P owner w, 0⟩).2
    exact iff_of_false (by omega) (by omega)
  -- the import goes through the gate
  have hremaining : 0 < 2000 - Store.countAddressContacts P A owner w := by omega
  have hturned := fun l => @importItems_turned P M A owner key
    (P.normalizeEmail mode = "overwrite") w w ⟨ownerHashes P owner w, 0⟩ hP hw
    ⟨hsound, .refl _, fun _ => rfl⟩ {} rfl _ hremaining 0 l
  have hhashes := fun l => (hturned l).1.inside
  have hfair := stored_iff_fair hhashes l
  have hapt := @comers_split P M A owner (P.normalizeEmail mode = "overwrite") w (some key)
    (fun b c => c.key ∉ (b.foldl enter ⟨ownerHashes P owner w, 0⟩).inside →
      ((b.foldl enter ⟨ownerHashes P owner w, 0⟩).counter <
          2000 - Store.countAddressContacts P A owner w ↔
        (b.foldl enter ⟨ownerHashes P owner w, 0⟩).inside.length < 2000)) 0 l
  have hstate : ∀ l, (importItems P M A owner (some key) (P.normalizeEmail mode = "overwrite")
      (2000 - Store.countAddressContacts P A owner w) 0 l {} w).2 =
        (importContacts P M A sess? mode (.items l) w).2 := by
    intro l
    rw [importContacts_state hctx, if_neg hfull]
  simp only [hstate] at hfair hhashes
  refine Iff.trans ⟨fun h => hfair.mp h.stored, fun h => ⟨?_, hfair.mpr h, ?_⟩⟩ (fair_iff.trans hapt)
  · rw [← (hhashes l).length_eq]
    exact length_le_of_fair h
  · intro saved skipped invalid hanswer
    rw [importContacts_answer hctx hfull hanswer, (hturned l).2]
    exact Nat.zero_add _

end Whole

/-! ## Two imports -/

/-- The sample's uuids are different texts. -/
theorem writable_sample : Writable .sample {} "a@x" where
  exec _ := rfl
  owner := by decide
  uuids n m h := by
    have hlen := congrArg (fun s => s.toList.length) h
    simpa [Params.sample] using hlen
  uuid n h := by
    have hlen := congrArg (fun s => s.toList.length) h
    simp [Params.sample] at hlen

/-- An address book with one contact. -/
def oneContact : BookState := runCalls .sample .sample (bookCalls "a@x" "c@z" "Carla") .fresh

/-- The contact that is there, a new one, and what is no address. -/
def threeItems : List ImpItem :=
  [{ email := "c@z", displayName := "Carla" }, { email := "d@w" }, { email := "-" }]

theorem importRight_iff_sample :
    ImportRight .sample .sample {} "a@x" (some ⟨"a@x", some 1⟩) "overwrite" threeItems oneContact ∧
      ownerHashes .sample "a@x" oneContact = [⟨"c@z"⟩] ∧
      ownerHashes .sample "a@x" (importContacts .sample .sample {} (some ⟨"a@x", some 1⟩) "overwrite"
        (.items threeItems) oneContact).2 = [⟨"c@z"⟩, ⟨"d@w"⟩] := by
  refine ⟨(importRight_iff lowerCase_sample writable_sample (bookCalls "a@x" "c@z" "Carla") rfl
      threeItems).mpr ?_,
    by decide, by decide⟩
  intro before it after heq _ _
  rcases before with _ | ⟨b₁, _ | ⟨b₂, _ | ⟨b₃, before⟩⟩⟩
  · decide
  · obtain ⟨rfl, -⟩ := List.cons.inj heq
    decide
  · obtain ⟨rfl, htail⟩ := List.cons.inj heq
    obtain ⟨rfl, -⟩ := List.cons.inj htail
    decide
  · simp [threeItems] at heq

theorem comers_replicate (n k : Nat) :
    comers .sample .sample {} "a@x" (some 1) true oneContact k (List.replicate n { email := "c@z" }) =
      List.replicate n ⟨⟨"c@z"⟩, true⟩ := by
  have hcomer : ∀ k, comer .sample {} "a@x" (some 1) true oneContact k { email := "c@z" } =
      ⟨⟨"c@z"⟩, true⟩ := by
    intro k
    have hkey : ImpItem.key .sample { email := "c@z" } = ⟨"c@z"⟩ := by decide
    have hread : readable .sample "a@x" (some 1) oneContact ⟨"c@z"⟩ = true := by decide
    rw [comer, hkey, hread]
    rfl
  have hvalid : ImpItem.valid .sample .sample { email := "c@z" } = true := by decide
  induction n generalizing k with
  | zero => rfl
  | succ n ih => rw [List.replicate_succ, comers, if_pos hvalid, ih, hcomer, List.replicate_succ]

/-- The one contact, overwritten 1999 times, leaves no room for a second. -/
theorem not_importRight : ¬ ∀ (P : Params) (M : Outside) (A : Around) (owner mode : String) (key : Nat)
    (sess? : Option BookSession) (calls : List BookCall) (l : List ImpItem), LowerCase P →
    Writable P A owner → ownerFromCtx P sess? = some (owner, some key) →
    ImportRight P M A owner sess? mode l (runCalls P M calls .fresh) := by
  intro h
  have hright := (h .sample .sample {} "a@x" "overwrite" 1 (some ⟨"a@x", some 1⟩)
    (bookCalls "a@x" "c@z" "Carla") (List.replicate 1999 { email := "c@z" } ++ [{ email := "d@w" }])
    lowerCase_sample writable_sample rfl).stored _ _ [] rfl (by decide)
  have hbook : runCalls .sample .sample (bookCalls "a@x" "c@z" "Carla") .fresh = oneContact := rfl
  have hsound : Sound .sample (fun _ => True) oneContact :=
    sound_fresh.run lowerCase_sample fun _ _ _ _ => trivial
  have hhashes : ownerHashes .sample "a@x" oneContact = [⟨"c@z"⟩] := by decide
  have hcount : Store.countAddressContacts .sample {} "a@x" oneContact = 1 := by decide
  have hkey : ImpItem.key .sample { email := "d@w" } = ⟨"d@w"⟩ := by decide
  have hvalid : ImpItem.valid .sample .sample { email := "d@w" } = true := by decide
  have hmode : (Params.sample.normalizeEmail "overwrite" = "overwrite" : Bool) = true := by decide
  have hstate : ∀ l, (importContacts .sample .sample {} (some ⟨"a@x", some 1⟩) "overwrite" (.items l)
      oneContact).2 = (importItems .sample .sample {} "a@x" (some 1) true 1999 0 l {} oneContact).2 := by
    intro l
    have hstart := @importContacts_state .sample .sample {} "a@x" "overwrite" oneContact
      (some ⟨"a@x", some 1⟩) (some 1) rfl l
    rw [hcount, hmode] at hstart
    exact hstart
  have hturned := fun l => (@importItems_turned .sample .sample {} "a@x" 1 true oneContact oneContact
    ⟨[⟨"c@z"⟩], 0⟩ lowerCase_sample writable_sample ⟨hsound, .of_eq hhashes.symm, fun _ => rfl⟩ {} rfl
    1999 (by decide) 0 l).1.inside
  have hpassed := hturned (List.replicate 1999 { email := "c@z" })
  have hended := hturned (List.replicate 1999 { email := "c@z" } ++ [{ email := "d@w" }])
  rw [comers_concat 0 _ hvalid, List.foldl_concat] at hended
  rw [comers_replicate, foldl_step_replicate List.mem_cons_self, ← hstate] at hpassed hended
  rw [hbook, hkey, ← hpassed.mem_iff, ← hpassed.length_eq, ← hended.mem_iff] at hright
  -- the counter is at 1999, and there is one contact
  rw [step_of_full (by rw [comer_key, hkey]; decide) (by decide)] at hright
  exact absurd ((hright (by decide)).mpr (by decide)) (by decide)

end E2Mail.Backend.AddressBook
