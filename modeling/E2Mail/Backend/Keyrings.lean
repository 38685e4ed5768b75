import E2Mail.Backend.World

/-!
# Keyrings and their migration

The personal keyrings in the database, the encryption of their fields, and the migration
that reads the keyring files of earlier versions at the start.

A directory is read file by file; every call to the database and every removal of a file
may fail, as `MigrationFaults` has it.

* `saveKeyring` — `SaveKeyring`;
* `migrateLegacyKeyrings` — `MigrateLegacyKeyrings`;
* `Migrated` — what the migration is for;
* `migrated_iff` — when it does that.
-/

namespace E2Mail.Backend

open Lib

/-! ## Fields -/

/-- `crypto.WrapField`, with the encryption under a data key. -/
def cryptoWrapField (encrypt : Nat → String → Res String) (dek : Option Nat) (plain : String) :
    Res String :=
  if plain = "" then .ok ""
  else
    match dek with
    | none => .error { text := "dek required" }
    | some dek => (encrypt dek plain).map ("e1:" ++ ·)

/-- `wrapFields`. -/
def wrapFields (encrypt : Nat → String → Res String) (dek : Option Nat) (vals : List String) :
    Res (List String) := vals.mapM (cryptoWrapField encrypt dek)

/-! ## The database -/

/-- `Keyring`. -/
structure Keyring where
  /-- `Email` -/
  email : String
  /-- `PublicKeyArmored` -/
  publicKeyArmored : String
  /-- `EncryptedPrivateKeyArmored` -/
  encryptedPrivateKeyArmored : String
  /-- `Fingerprint` -/
  fingerprint : String
  /-- `KeyID` -/
  keyID : String
  /-- `UpdatedAt`, unless it is the zero time -/
  updatedAt : Option Nat
  deriving DecidableEq, Repr

/-- A row of `personal_keyrings`. -/
structure KeyringRow where
  ownerID : String
  publicKeyArmored : String
  encryptedPrivateKey : String
  fingerprint : String
  keyID : String
  updatedAt : Nat
  deriving DecidableEq, Repr

/-- `personal_keyrings`. -/
abbrev KeyringTable : Type := Table KeyringRow.ownerID

/-- `INSERT … ON CONFLICT(owner_id) DO UPDATE`. -/
def KeyringTable.upsert (row : KeyringRow) (t : KeyringTable) : KeyringTable :=
  match t.insert? row with
  | some t' => t'
  | none => t.update (fun old => old.ownerID = row.ownerID)
      (fun old => if old.ownerID = row.ownerID then row else old) fun old => by
        split
        · rename_i h
          exact h.symm
        · rfl

/-- The owner has a keyring. -/
def KeyringTable.Has (t : KeyringTable) (owner : String) : Prop := 0 < t.count (·.ownerID = owner)

instance (t : KeyringTable) (owner : String) : Decidable (t.Has owner) :=
  inferInstanceAs (Decidable (0 < _))

/-- The surroundings of the storage: the encryption, the clock and the JSON decoder. -/
structure KeyringLib where
  /-- `Encrypt` under a data key -/
  encrypt : Nat → String → Res String
  /-- `time.Now()` -/
  now : Nat
  /-- `json.Unmarshal` to a `Keyring` -/
  unmarshal : String → Option Keyring

variable (P : Params) (E : KeyringLib)

/-- `SaveKeyring`; the statement may fail. -/
def saveKeyring (insertErr : Option String) (k : Keyring) (dek : Option Nat) (db : KeyringTable) :
    Res KeyringTable :=
  if k.email = "" then .error { text := "email is required" }
  else if k.publicKeyArmored = "" ∨ k.encryptedPrivateKeyArmored = "" then
    .error { text := "publicKeyArmored and encryptedPrivateKeyArmored are required" }
  else
    match wrapFields E.encrypt dek [k.publicKeyArmored, k.fingerprint, k.keyID] with
    | .error e => .error e
    | .ok wrapped =>
      match insertErr with
      | some e => .error { text := "failed to save keyring: " ++ e }
      | none => .ok (KeyringTable.upsert
          { ownerID := P.ownerID k.email
            publicKeyArmored := wrapped.getD 0 ""
            encryptedPrivateKey := k.encryptedPrivateKeyArmored
            fingerprint := wrapped.getD 1 ""
            keyID := wrapped.getD 2 ""
            updatedAt := k.updatedAt.getD E.now } db)

/-! ## The migration -/

/-- An entry of the directory with its content, unless it cannot be read. -/
structure LegacyFile where
  name : String
  isDir : Bool
  data : Option String

/-- The directory `keyrings`. -/
abbrev LegacyDir : Type := Table LegacyFile.name

/-- The database and the directory, unless there is none. -/
structure KeyringStore where
  db : KeyringTable
  dir : Option LegacyDir

/-- What fails: reading the directory, the statements for a file, and removals. -/
structure MigrationFaults where
  readDir : Option String
  /-- `SELECT COUNT(*)`, by the name of the file -/
  count : String → Option String
  /-- the insertion -/
  insert : String → Option String
  remove : String → Bool
  removeDir : Bool

/-- The keyring in a file, unless the file is passed over. -/
def LegacyFile.keyring (file : LegacyFile) : Option Keyring :=
  if file.isDir || !".json".toList.isSuffixOf file.name.toList then none
  else (file.data.bind E.unmarshal).filter fun k =>
    k.email != "" && k.encryptedPrivateKeyArmored != "" && k.publicKeyArmored != ""

variable (f : MigrationFaults)

/-- `os.Remove`. -/
def removeFile (name : String) (dir : LegacyDir) : LegacyDir :=
  if f.remove name then dir else dir.delete (·.name = name)

/-- One file. -/
def migrateFile (st : KeyringTable × LegacyDir × Nat) (file : LegacyFile) :
    Except String (KeyringTable × LegacyDir × Nat) :=
  match file.keyring E with
  | none => .ok st
  | some payload =>
    match f.count file.name with
    | some e => .error e
    | none =>
      -- imported before, and only the file was not removed
      if st.1.Has (P.ownerID payload.email) then .ok (st.1, removeFile f file.name st.2.1, st.2.2)
      else
        match saveKeyring P E (f.insert file.name) payload none st.1 with
        | .error e => .error ("failed to migrate " ++ file.name ++ ": " ++ e.text)
        | .ok db => .ok (db, removeFile f file.name st.2.1, st.2.2 + 1)

/-- The loop over the files, up to the first error. -/
def migrateFiles : List LegacyFile → KeyringTable × LegacyDir × Nat →
    (KeyringTable × LegacyDir × Nat) × Option String
  | [], st => (st, none)
  | file :: files, st =>
    match migrateFile P E f st file with
    | .error e => (st, some e)
    | .ok st' => migrateFiles files st'

/-- `MigrateLegacyKeyrings`: the store after it, the number of files and the error. A
directory is only removed when it is empty. -/
def migrateLegacyKeyrings (s : KeyringStore) : KeyringStore × Nat × Option String :=
  match s.dir with
  | none => (s, 0, none)
  | some dir =>
    match f.readDir with
    | some e => (s, 0, some ("failed to read keyring dir: " ++ e))
    | none =>
      match migrateFiles P E f dir.rows (s.db, dir, 0) with
      | ((db, dir', migrated), some e) => (⟨db, some dir'⟩, migrated, some e)
      | ((db, dir', migrated), none) =>
        if dir'.rows = [] ∧ f.removeDir = false then (⟨db, none⟩, migrated, none)
        else (⟨db, some dir'⟩, migrated, none)

/-! ## What it does -/

section Steps

variable {P E f}

theorem wrapFields_nil_dek {plain : String} (rest : List String) (h : plain ≠ "") :
    wrapFields E.encrypt none (plain :: rest) = .error { text := "dek required" } := by
  rw [wrapFields, List.mapM_cons, cryptoWrapField, if_neg h]
  rfl

/-- **Without a data key** no keyring is saved. -/
theorem saveKeyring_nil_dek {insertErr : Option String} {k : Keyring} {db : KeyringTable}
    {db' : KeyringTable} : saveKeyring P E insertErr k none db ≠ .ok db' := by
  rw [saveKeyring]
  split
  · exact fun h => by cases h
  · split
    · exact fun h => by cases h
    · rename_i hkeys
      rw [wrapFields_nil_dek _ (not_or.mp hkeys).1]
      exact fun h => by cases h

/-- **One file**: it is passed over, or its owner has a keyring and it is removed. -/
theorem migrateFile_ok {st st' : KeyringTable × LegacyDir × Nat} {file : LegacyFile}
    (h : migrateFile P E f st file = .ok st') :
    (file.keyring E = none ∧ st' = st) ∨
    ∃ k, file.keyring E = some k ∧ st.1.Has (P.ownerID k.email) ∧
      st' = (st.1, removeFile f file.name st.2.1, st.2.2) := by
  rw [migrateFile] at h
  cases hk : file.keyring E with
  | none =>
    rw [hk] at h
    exact .inl ⟨rfl, (Except.ok.inj h).symm⟩
  | some k =>
    rw [hk] at h
    dsimp only at h
    split at h
    · cases h
    · split at h
      · rename_i hhas
        exact .inr ⟨k, rfl, hhas, (Except.ok.inj h).symm⟩
      · split at h
        · cases h
        · rename_i hsave
          exact absurd hsave saveKeyring_nil_dek

theorem mem_removeFile {name : String} {dir : LegacyDir} {file : LegacyFile} :
    file ∈ (removeFile f name dir).rows ↔
      file ∈ dir.rows ∧ (file.name = name → f.remove name = true) := by
  rw [removeFile]
  split
  · rename_i hfails
    exact ⟨fun hmem => ⟨hmem, fun _ => hfails⟩, And.left⟩
  · rename_i hfails
    rw [Table.mem_delete]
    simp [hfails]

/-- **The files** one after the other. The database stays as it is; what is removed is the
file of an owner with a keyring; and a run without an error has removed every file of a
keyring, as far as it could. -/
theorem migrateFiles_spec (files : List LegacyFile) (st : KeyringTable × LegacyDir × Nat) :
    (migrateFiles P E f files st).1.1 = st.1 ∧
    (∀ file ∈ (migrateFiles P E f files st).1.2.1.rows, file ∈ st.2.1.rows) ∧
    (∀ file ∈ st.2.1.rows, file ∉ (migrateFiles P E f files st).1.2.1.rows →
      ∃ other ∈ files, other.name = file.name ∧
        ∃ k, other.keyring E = some k ∧ st.1.Has (P.ownerID k.email)) ∧
    ((migrateFiles P E f files st).2 = none → ∀ file ∈ files, ∀ k, file.keyring E = some k →
      st.1.Has (P.ownerID k.email) ∧
        (f.remove file.name = false → file ∉ (migrateFiles P E f files st).1.2.1.rows)) := by
  induction files generalizing st with
  | nil => exact ⟨rfl, fun _ => id, fun file h h' => absurd h h', by simp⟩
  | cons file files ih =>
    rw [migrateFiles]
    cases hstep : migrateFile P E f st file with
    | error e => exact ⟨rfl, fun _ => id, fun file h h' => absurd h h', fun h => by cases h⟩
    | ok st' =>
      dsimp only
      obtain ⟨hdb, hsub, hgone, hall⟩ := ih st'
      obtain ⟨hnone, rfl⟩ | ⟨k, hk, hhas, rfl⟩ := migrateFile_ok hstep
      · refine ⟨hdb, hsub, fun other hother hother' => ?_, fun hok => ?_⟩
        · obtain ⟨o, ho, h⟩ := hgone other hother hother'
          exact ⟨o, List.mem_cons_of_mem file ho, h⟩
        · refine List.forall_mem_cons.mpr ⟨fun k hk => ?_, hall hok⟩
          rw [hnone] at hk
          cases hk
      · refine ⟨hdb, fun other hother => (mem_removeFile.mp (hsub other hother)).1,
          fun other hother hother' => ?_, fun hok => ?_⟩
        · by_cases hkept : other ∈ (removeFile f file.name st.2.1).rows
          · obtain ⟨o, ho, h⟩ := hgone other hkept hother'
            exact ⟨o, List.mem_cons_of_mem file ho, h⟩
          · have hname : other.name = file.name := by
              by_contra hne
              exact hkept (mem_removeFile.mpr ⟨hother, fun heq => absurd heq hne⟩)
            exact ⟨file, List.mem_cons_self, hname.symm, k, hk, hhas⟩
        · refine List.forall_mem_cons.mpr ⟨fun k' hk' => ⟨?_, fun hremove hmem => ?_⟩, hall hok⟩
          · rw [hk] at hk'
            rwa [← Option.some.inj hk']
          · have hfails := (mem_removeFile.mp (hsub file hmem)).2 rfl
            rw [hremove] at hfails
            cases hfails

end Steps

/-! ## What it is for -/

/-- The file is in the directory. -/
def KeyringStore.HasFile (s : KeyringStore) (file : LegacyFile) : Prop :=
  ∃ dir, s.dir = some dir ∧ file ∈ dir.rows

/-- What the migration of a store is for. -/
structure Migrated (s : KeyringStore) : Prop where
  /-- a keyring is imported, or its file is still there -/
  kept : ∀ file, s.HasFile file → ∀ k, file.keyring E = some k →
    (migrateLegacyKeyrings P E f s).1.db.Has (P.ownerID k.email) ∨
      (migrateLegacyKeyrings P E f s).1.HasFile file
  /-- a file is only removed when its owner has a keyring -/
  removed : ∀ file, s.HasFile file → ¬(migrateLegacyKeyrings P E f s).1.HasFile file →
    ∃ k, file.keyring E = some k ∧ (migrateLegacyKeyrings P E f s).1.db.Has (P.ownerID k.email)
  /-- a keyring whose own statements do not fail is imported, whatever happens to the others -/
  imported : f.readDir = none → ∀ file, s.HasFile file → ∀ k, file.keyring E = some k →
    f.count file.name = none → f.insert file.name = none →
      (migrateLegacyKeyrings P E f s).1.db.Has (P.ownerID k.email)
  /-- after a run without any failure, another changes nothing -/
  again : (migrateLegacyKeyrings P E f s).2.2 = none → (∀ name, f.remove name = false) →
    f.removeDir = false → ∀ f', (migrateLegacyKeyrings P E f' (migrateLegacyKeyrings P E f s).1).1 =
      (migrateLegacyKeyrings P E f s).1

section Results

variable {P E f} {s : KeyringStore}

/-- **A run** of the migration: the database stays as it is, and so do the files, but for
those of owners with a keyring. -/
theorem migrateLegacyKeyrings_spec :
    (migrateLegacyKeyrings P E f s).1.db = s.db ∧
    ∀ file, s.HasFile file → ¬(migrateLegacyKeyrings P E f s).1.HasFile file →
      ∃ k, file.keyring E = some k ∧ s.db.Has (P.ownerID k.email) := by
  rw [migrateLegacyKeyrings]
  cases hdir : s.dir with
  | none => exact ⟨rfl, fun file h h' => absurd h h'⟩
  | some dir =>
    dsimp only
    cases hread : f.readDir with
    | some e => exact ⟨rfl, fun file h h' => absurd h h'⟩
    | none =>
      dsimp only
      obtain ⟨hdb, -, hgone, -⟩ := migrateFiles_spec (P := P) (E := E) (f := f) dir.rows
        (s.db, dir, 0)
      generalize migrateFiles P E f dir.rows (s.db, dir, 0) = result at hdb hgone ⊢
      obtain ⟨⟨db, dir', migrated⟩, err⟩ := result
      have hremoved : ∀ file, s.HasFile file → file ∉ dir'.rows →
          ∃ k, file.keyring E = some k ∧ s.db.Has (P.ownerID k.email) := by
        rintro file ⟨dir₀, hdir₀, hfile⟩ hgone'
        rw [hdir] at hdir₀
        obtain rfl := Option.some.inj hdir₀
        obtain ⟨other, hother, hname, h⟩ := hgone file hfile hgone'
        rwa [Table.eq_of_key hother hfile hname] at h
      cases err with
      | some e => exact ⟨hdb, fun file h h' => hremoved file h fun hmem => h' ⟨dir', rfl, hmem⟩⟩
      | none =>
        dsimp only
        split
        · rename_i hempty
          refine ⟨hdb, fun file h _ => hremoved file h ?_⟩
          rw [hempty.1]
          exact List.not_mem_nil
        · exact ⟨hdb, fun file h h' => hremoved file h fun hmem => h' ⟨dir', rfl, hmem⟩⟩

theorem migrateFiles_none {files : List LegacyFile} {st : KeyringTable × LegacyDir × Nat}
    (h : ∀ file ∈ files, file.keyring E = none) : migrateFiles P E f files st = (st, none) := by
  induction files with
  | nil => rfl
  | cons file files ih =>
    rw [List.forall_mem_cons] at h
    rw [migrateFiles, migrateFile, h.1]
    exact ih h.2

/-- A store in which the migration finds no keyring, and no empty directory, stays as it is. -/
theorem migrateLegacyKeyrings_idle
    (h : ∀ dir, s.dir = some dir → dir.rows ≠ [] ∧ ∀ file ∈ dir.rows, file.keyring E = none) :
    (migrateLegacyKeyrings P E f s).1 = s := by
  rw [migrateLegacyKeyrings]
  obtain ⟨db, _ | dir⟩ := s
  · rfl
  · obtain ⟨hne, hnone⟩ := h dir rfl
    dsimp only
    cases f.readDir with
    | some e => rfl
    | none =>
      dsimp only
      rw [migrateFiles_none hnone]
      dsimp only
      rw [if_neg fun hempty => hne hempty.1]

/-- After a run without any failure there is no keyring file left, and no empty directory. -/
theorem migrateLegacyKeyrings_done (hok : (migrateLegacyKeyrings P E f s).2.2 = none)
    (hremove : ∀ name, f.remove name = false) (hremoveDir : f.removeDir = false) :
    ∀ dir, (migrateLegacyKeyrings P E f s).1.dir = some dir →
      dir.rows ≠ [] ∧ ∀ file ∈ dir.rows, file.keyring E = none := by
  rw [migrateLegacyKeyrings] at hok ⊢
  obtain ⟨db, _ | dir⟩ := s
  · rintro dir' ⟨⟩
  · dsimp only at hok ⊢
    cases hread : f.readDir with
    | some e =>
      rw [hread] at hok
      cases hok
    | none =>
      rw [hread] at hok
      dsimp only at hok ⊢
      obtain ⟨-, hsub, -, hall⟩ := migrateFiles_spec (P := P) (E := E) (f := f) dir.rows (db, dir, 0)
      generalize migrateFiles P E f dir.rows (db, dir, 0) = result at hsub hall hok ⊢
      obtain ⟨⟨db', dir', migrated⟩, _ | e⟩ := result
      · dsimp only at hok ⊢
        split
        · rintro dir'' ⟨⟩
        · rename_i hempty
          rintro dir'' ⟨⟩
          refine ⟨fun h => hempty ⟨h, hremoveDir⟩, fun file hfile => ?_⟩
          cases hk : file.keyring E with
          | none => rfl
          | some k => exact absurd hfile ((hall rfl file (hsub file hfile) k hk).2 (hremove _))
      · cases hok

end Results

/-- **The migration** does what it is for just if the owner of every keyring file whose
statements do not fail has a keyring in the database already: it imports none. -/
theorem migrated_iff (P : Params) (E : KeyringLib) (f : MigrationFaults) (s : KeyringStore) :
    Migrated P E f s ↔ (f.readDir = none → ∀ file, s.HasFile file → ∀ k,
      file.keyring E = some k → f.count file.name = none → f.insert file.name = none →
        s.db.Has (P.ownerID k.email)) := by
  obtain ⟨hdb, hgone⟩ := migrateLegacyKeyrings_spec (P := P) (E := E) (f := f) (s := s)
  constructor
  · intro h
    have himported := h.imported
    rwa [hdb] at himported
  · intro h
    refine ⟨fun file hfile k hk => ?_, ?_, ?_, fun hok hremove hremoveDir f' => ?_⟩
    · by_cases hstays : (migrateLegacyKeyrings P E f s).1.HasFile file
      · exact .inr hstays
      · obtain ⟨k', hk', hhas⟩ := hgone file hfile hstays
        rw [hk] at hk'
        rw [hdb, Option.some.inj hk']
        exact .inl hhas
    · rwa [hdb]
    · rwa [hdb]
    · exact migrateLegacyKeyrings_idle (migrateLegacyKeyrings_done hok hremove hremoveDir)

/-- Files that hold nothing but the address of the owner, with the keys of that name. -/
def KeyringLib.sample : KeyringLib where
  encrypt _ plain := .ok plain
  now := 0
  unmarshal text := some ⟨text, "public", "private", "", "", none⟩

/-- A first start after an update: the files of two owners, and no keyring in the database. -/
def firstStart : KeyringStore where
  db := Table.empty
  dir := some ⟨[⟨"alice.json", false, some "alice@x"⟩, ⟨"bob.json", false, some "bob@x"⟩], by decide⟩

/-- **Nothing is imported** even where nothing fails: the first keyring ends the migration,
since there is no data key to encrypt it with. -/
theorem firstStart_not_migrated :
    ¬∀ (P : Params) (E : KeyringLib) (f : MigrationFaults) (s : KeyringStore), Migrated P E f s := by
  intro h
  have himported := (h Params.sample KeyringLib.sample
    ⟨none, fun _ => none, fun _ => none, fun _ => false, false⟩ firstStart).imported rfl
    ⟨"bob.json", false, some "bob@x"⟩ ⟨_, rfl, by simp⟩ ⟨"bob@x", "public", "private", "", "", none⟩
    (by decide +kernel) rfl rfl
  exact absurd himported (by decide +kernel)

end E2Mail.Backend
