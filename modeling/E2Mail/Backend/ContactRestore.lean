import E2Mail.Backend.ContactCards
import E2Mail.Backend.ImportRoom

/-!
# An address book restored

An import takes a file for vCard by its name, or by what it begins with, and for CSV otherwise.

* `importFile` — what an import makes of a file.
* `importItems_restore` — new contacts are stored one after the other, as they are in the file.
* `import_restores` — an import of an export into an empty address book restores the contacts.
-/

namespace E2Mail.Backend.AddressBook

open Lib Lib.Csv Lib.Text

-- a bounded quantifier is decided over its list or option, not over all characters
attribute [local instance (1100)] List.decidableBAll Option.decidableForallMem

section File

variable (P : Params)

/-- The characters in the first bytes. -/
def firstBytes : Nat → Text → Text
  | _, [] => []
  | n, c :: s => if c.utf8Size ≤ n then c :: firstBytes (n - c.utf8Size) s else []

def isVCard (filename data : Text) : Bool :=
  ".vcf".toList.isSuffixOf (lowerText P filename) || ".vcard".toList.isSuffixOf (lowerText P filename) ||
    (after beginCard (upperText P (firstBytes 1024 data))).isSome

/-- The file of `Import`, as far as it decides what is imported. -/
def importFile (filename data : Text) : ImportFile :=
  if data = [] then .empty
  else if isVCard P filename data then .items (parseVCard P data)
  else
    match parseCSV P data with
    | .error e => .badCSV e
    | .ok items => .items items

end File

/-! ## New contacts -/

section Restore

variable {P : Params} {M : Outside} {A : Around} {owner mode : String} {key remaining : Nat}
  {overwrite : Bool}
  {w : BookState} {sess? : Option BookSession} {tally : Tally} {it : ImpItem} {l : List Contact}

/-- The columns of a contact that has been imported. -/
def Contact.restored (c : Contact) : Columns String := { c.columns with source := "import" }

/-- A contact as the handlers store it. -/
structure Importable (P : Params) (M : Outside) (c : Contact) : Prop where
  normal : P.normalizeEmail c.columns.email = c.columns.email
  valid : c.toItem.valid P M = true
  shown : c.columns.displayName ≠ ""
  trimmed : ∀ s ∈ [c.columns.displayName, c.columns.givenName, c.columns.familyName, c.columns.note],
    trimSpace s = s

/-- The row of a new contact. -/
structure RowOf (P : Params) (owner : String) (key : Nat) (it : ImpItem) (t : Columns String)
    (r : ContactRow) : Prop where
  owner : r.ownerID = cryptoOwnerID P owner
  hash : r.emailHash = it.key P
  columns : ∃ n, r.columns = Columns.seal key n t

/-- **A new contact is stored**, if there is room for it. -/
theorem importItem_new (hP : LowerCase P) (hw : Writable P A owner)
    (hsound : Sound P (fun _ => True) w) (k : Nat) (tally : Tally) (hvalid : it.valid P M = true) (hnew : it.key P ∉ ownerHashes P owner w)
    (hroom : tally.saved < remaining) :
    ∃ r w', importItem P M A owner (some key) overwrite remaining k it tally w =
        ({ tally with saved := tally.saved + 1 }, w') ∧
      w'.contacts.rows = w.contacts.rows ++ [r] ∧
      RowOf P owner key it
        ((it.contact owner (P.uuid w.uuids) (P.normalizeEmail it.email)).newTexts P) r := by
  have hlookup : Store.getAddressContactByEmail P A k owner (P.normalizeEmail it.email)
      (some key) w = none := by
    refine Option.not_isSome_iff_eq_none.mp fun hsome => hnew ?_
    exact ((getByEmail_isSome hP k it.email).mp hsome).2.1
  obtain ⟨hne, -⟩ := valid_iff.mp hvalid
  rw [importItem_missing hvalid hlookup, if_neg (by omega)]
  have himport : importNew P A owner (some key) k (P.normalizeEmail it.email) it tally w =
      tally.created (P.normalizeEmail it.email) (Store.createAddressContact P A k
        (it.contact owner (P.uuid w.uuids) (P.normalizeEmail it.email)) (some key) (newID P w).2) := rfl
  have hidem := hP.normalizeEmail_idem it.email
  rw [himport]
  generalize hc : it.contact owner (P.uuid w.uuids) (P.normalizeEmail it.email) = c
  have hcowner : c.ownerEmail = owner := by rw [← hc, ImpItem.contact]
  have hcemail : c.columns.email = P.normalizeEmail it.email := by rw [← hc, ImpItem.contact]
  have hrow : RowOf P owner key it (c.newTexts P) (c.newRow P A k key (newID P w).2.nonces) := by
    refine ⟨by rw [Contact.newRow, hcowner], ?_, ⟨_, rfl⟩⟩
    rw [Contact.newRow, hcemail, hidem]
    rfl
  cases hinsert : (newID P w).2.contacts.insert (c.newRow P A k key (newID P w).2.nonces) with
  | error e =>
    -- the id is a new one, and so is the hash
    have hid : (c.newRow P A k key (newID P w).2.nonces).id ∉ (newID P w).2.contacts.rows.map ContactRow.id := by
      rw [Contact.newRow, ← hc, ImpItem.contact, List.mem_map]
      rintro ⟨r, hr, hrid⟩
      obtain ⟨n, hn, hdrawn⟩ := hsound.drawn r hr
      exact absurd (hw.uuids (hdrawn.symm.trans hrid)) (Nat.ne_of_lt hn)
    have hin := (key_mem_iff hrow.owner).mp (mem_of_insert_error hinsert hid)
    rw [hrow.hash] at hin
    exact absurd hin hnew
  | ok t =>
    obtain ⟨-, hrows⟩ := insert_ok hinsert
    obtain ⟨c', n, hcreate⟩ := createAddressContact_ok (hw.exec k) (hcowner.symm ▸ hw.owner)
      (hcemail.symm ▸ hne) hinsert
    rw [hcreate]
    exact ⟨_, _, rfl, hrows, hrow⟩

/-- What is stored of a contact is what was exported. -/
theorem restored_eq {c : Contact} (hP : LowerCase P) (hc : Importable P M c) (id : String) :
    (c.toItem.contact owner id (P.normalizeEmail c.toItem.email)).newTexts P = c.restored := by
  obtain ⟨hshown, hgiven, hfamily, hnote, -⟩ := by simpa only [List.forall_mem_cons] using hc.trimmed
  have hidem := hP.normalizeEmail_idem c.columns.email
  rw [Contact.newTexts, ImpItem.contact, Contact.toItem, Contact.restored]
  simp only [hc.normal, hshown, hgiven, hfamily, hnote, if_neg hc.shown]
  rfl

/-- **All new contacts are stored**, in their order. -/
theorem importItems_restore (hP : LowerCase P) (hw : Writable P A owner)
    (hsound : Sound P (fun _ => True) w) (k : Nat)
    (hl : ∀ c ∈ l, Importable P M c) (hkeys : (l.map fun c => c.toItem.key P).Nodup)
    (hnew : ∀ c ∈ l, c.toItem.key P ∉ ownerHashes P owner w) (hroom : tally.saved + l.length ≤ remaining) :
    ∃ rows w', importItems P M A owner (some key) overwrite remaining k (l.map Contact.toItem) tally w =
        ({ tally with saved := tally.saved + l.length }, w') ∧
      w'.contacts.rows = w.contacts.rows ++ rows ∧
      List.Forall₂ (fun c r => RowOf P owner key c.toItem c.restored r) l rows := by
  induction l generalizing k w tally with
  | nil => exact ⟨[], w, rfl, (List.append_nil _).symm, .nil⟩
  | cons c l ih =>
    obtain ⟨hc, hl⟩ := List.forall_mem_cons.mp hl
    obtain ⟨hcnew, hnew⟩ := List.forall_mem_cons.mp hnew
    obtain ⟨hcfresh, hkeys⟩ := List.nodup_cons.mp hkeys
    rw [List.length_cons] at hroom
    have hfree : tally.saved < remaining := by omega
    obtain ⟨r, w', hitem, hrows, hrow⟩ :=
      @importItem_new P M A owner key remaining overwrite w c.toItem hP hw hsound k tally hc.valid hcnew hfree
    have hsound' : Sound P (fun _ => True) w' := by
      have hnext : Sound P (fun _ => True)
          (importItem P M A owner (some key) overwrite remaining k c.toItem tally w).2 :=
        hsound.importItem hP overwrite remaining k c.toItem tally fun _ _ => trivial
      rwa [hitem] at hnext
    rw [restored_eq hP hc] at hrow
    have hhashes : ownerHashes P owner w' = ownerHashes P owner w ++ [c.toItem.key P] := by
      rw [ownerHashes, hrows, List.filter_append, List.filter_singleton, ownerHashes]
      simp [hrow.owner, hrow.hash]
    have hnew' : ∀ d ∈ l, d.toItem.key P ∉ ownerHashes P owner w' := fun d hd hin => by
      rw [hhashes] at hin
      rcases List.mem_append.mp hin with hin | hin
      · exact hnew d hd hin
      · exact hcfresh (List.mem_map.mpr ⟨d, hd, List.mem_singleton.mp hin⟩)
    have hroom' : ({ tally with saved := tally.saved + 1 } : Tally).saved + l.length ≤ remaining := by
      simp only []
      omega
    obtain ⟨rows, w'', hitems, hrest, hall⟩ := ih hsound' (k + 1) hl hkeys hnew' hroom'
    refine ⟨r :: rows, w'', ?_, ?_, .cons hrow hall⟩
    · rw [List.map_cons, importItems, hitem, hitems, List.length_cons]
      simp only [Nat.add_assoc, Nat.add_comm 1]
    · rw [hrest, hrows, List.append_assoc, List.singleton_append]

/-! ## The whole file -/

/-- The address book as its owner reads it. -/
def bookOf (P : Params) (owner : String) (key : Nat) (w : BookState) : List (Option (Columns String)) :=
  (w.contacts.rows.filter fun r => r.ownerID = cryptoOwnerID P owner).map fun r =>
    (unwrapFields (some key) r.columns).toOption

/-- The rows of all others. -/
def otherRows (P : Params) (owner : String) (w : BookState) : List ContactRow :=
  w.contacts.rows.filter fun r => r.ownerID ≠ cryptoOwnerID P owner

theorem bookOf_of_rows {w' : BookState} {rows : List ContactRow} (hempty : ownerHashes P owner w = [])
    (hrows : w'.contacts.rows = w.contacts.rows ++ rows)
    (hall : List.Forall₂ (fun c r => RowOf P owner key c.toItem c.restored r) l rows) :
    bookOf P owner key w' = l.map (fun c => some c.restored) ∧
    otherRows P owner w' = otherRows P owner w := by
  have hnone : w.contacts.rows.filter (fun r => r.ownerID = cryptoOwnerID P owner) = [] :=
    List.map_eq_nil_iff.mp hempty
  have hnew : (rows.filter fun r => r.ownerID = cryptoOwnerID P owner).map
      (fun r => (unwrapFields (some key) r.columns).toOption) = l.map (fun c => some c.restored) ∧
        rows.filter (fun r => r.ownerID ≠ cryptoOwnerID P owner) = [] := by
    clear hrows
    induction hall with
    | nil => exact ⟨rfl, rfl⟩
    | cons hrow _ ih =>
      obtain ⟨n, hcols⟩ := hrow.columns
      rw [List.filter_cons_of_pos (by simpa using hrow.owner),
        List.filter_cons_of_neg (by simpa using hrow.owner), List.map_cons, List.map_cons, ih.1,
        ih.2, hcols, unwrapFields_seal]
      exact ⟨rfl, rfl⟩
  rw [bookOf, otherRows, otherRows, hrows, List.filter_append, List.filter_append, hnone,
    List.nil_append, hnew.1, hnew.2, List.append_nil]
  exact ⟨rfl, rfl⟩

/-- **An import of a file restores the address book** that is in the file, if the owner has none. -/
theorem import_restores (hP : LowerCase P) (hw : Writable P A owner) (calls : List BookCall)
    (hcalls : runCalls P M calls .fresh = w) (hctx : ownerFromCtx P sess? = some (owner, some key))
    (hempty : ownerHashes P owner w = []) (hl : ∀ c ∈ l, Importable P M c)
    (hkeys : (l.map fun c => c.toItem.key P).Nodup) (hlen : l.length ≤ 2000) :
    bookOf P owner key (importContacts P M A sess? mode (.items (l.map Contact.toItem)) w).2 =
        l.map (fun c => some c.restored) ∧
      otherRows P owner (importContacts P M A sess? mode (.items (l.map Contact.toItem)) w).2 =
        otherRows P owner w := by
  have hsound : Sound P (fun _ => True) w := hcalls ▸ sound_fresh.run hP fun _ _ _ _ => trivial
  have hcount : Store.countAddressContacts P A owner w = 0 := by
    rw [Store.countAddressContacts]
    split
    · rfl
    · rw [List.countP_eq_length_filter, List.map_eq_nil_iff.mp hempty]
      rfl
  have hroom : ({} : Tally).saved + l.length ≤ 2000 := by simpa using hlen
  obtain ⟨rows, w', hitems, hrows, hall⟩ := @importItems_restore P M A owner key 2000
    (P.normalizeEmail mode = "overwrite") w {} l hP hw hsound 0 hl hkeys (by simp [hempty]) hroom
  rw [importContacts_state hctx, hcount, if_neg (by decide), Nat.sub_zero, hitems]
  exact bookOf_of_rows hempty hrows hall

theorem importFile_exportCSV {filename : Text} (hlower : KeepsLower P)
    (hcsv : isVCard P filename (exportCSV l) = false) (hl : ∀ c ∈ l, CsvSafe c.columns) :
    importFile P filename (exportCSV l) = .items (l.map Contact.toItem) := by
  have hne : exportCSV l ≠ [] := by
    intro hnil
    have hlast : (writeRecord isSpace csvHeader).getLast? = some '\n' := getLast?_writeRecord csvHeader
    rw [exportCSV, writeAll, List.flatMap_cons] at hnil
    rw [(List.append_eq_nil_iff.mp hnil).1] at hlast
    cases hlast
  rw [importFile, if_neg hne, hcsv, if_neg Bool.false_ne_true, (parseCSV_exportCSV_iff hlower l).mpr hl]

/-- A file of cards is taken for what it is. -/
theorem isVCard_exportVCF (hU : KeepsUpper P) (filename : Text) (hl : l ≠ []) :
    isVCard P filename (exportVCF l) = true := by
  obtain ⟨c, l, rfl⟩ := List.exists_cons_of_ne_nil hl
  have hstart : ∃ rest, exportVCF (c :: l) = beginCard ++ rest :=
    ⟨_, by rw [exportVCF, List.flatMap_cons, List.append_assoc]⟩
  obtain ⟨rest, hrest⟩ := hstart
  have hbytes : firstBytes 1024 (beginCard ++ rest) = beginCard ++ firstBytes 1013 rest := rfl
  have hsame : ∀ c ∈ beginCard, c.isUpper = true ∨ c = ':' := by decide
  have hupper : upperText P (beginCard ++ firstBytes 1013 rest) =
      beginCard ++ upperText P (firstBytes 1013 rest) := by
    rw [upperText, List.map_append]
    congr 1
    conv_rhs => rw [← List.map_id beginCard]
    exact List.map_congr_left fun c hc => hU c (hsame c hc)
  have hafter : ∀ s, (after beginCard (beginCard ++ s)).isSome = true := fun s => by
    have hpos : after beginCard (beginCard ++ s) = some ((beginCard ++ s).drop beginCard.length) :=
      if_pos (List.isPrefixOf_iff_prefix.mpr (List.prefix_append beginCard s))
    rw [hpos]
    rfl
  rw [isVCard, hrest, hbytes, hupper, hafter, Bool.or_true]

theorem importFile_exportVCF {filename : Text} (hU : KeepsUpper P) (hne : l ≠ [])
    (hl : ∀ c ∈ l, CardSafe P c.columns) :
    importFile P filename (exportVCF l) = .items (l.map Contact.toItem) := by
  have hcards := isVCard_exportVCF hU filename hne
  have hdata : exportVCF l ≠ [] := by
    obtain ⟨c, l, rfl⟩ := List.exists_cons_of_ne_nil hne
    rw [exportVCF, List.flatMap_cons, List.append_assoc]
    exact List.cons_ne_nil _ _
  rw [importFile, if_neg hdata, hcards, if_pos rfl, parseVCard_exportVCF hU l hl]

/-- The file is an export of the contacts, from which they can be read again. -/
def ExportOf (P : Params) (l : List Contact) (filename data : Text) : Prop :=
  data = exportCSV l ∧ isVCard P filename data = false ∧ (∀ c ∈ l, CsvSafe c.columns) ∨
    data = exportVCF l ∧ l ≠ [] ∧ ∀ c ∈ l, CardSafe P c.columns

/-- **Export and import**: a file that was exported brings the contacts back, into an address book with none,
and leaves those of all others as they are. -/
theorem export_restores {filename data : Text} (hP : LowerCase P) (hlower : KeepsLower P) (hU : KeepsUpper P)
    (hw : Writable P A owner) (calls : List BookCall) (hcalls : runCalls P M calls .fresh = w)
    (hctx : ownerFromCtx P sess? = some (owner, some key)) (hempty : ownerHashes P owner w = [])
    (hl : ∀ c ∈ l, Importable P M c) (hkeys : (l.map fun c => c.toItem.key P).Nodup) (hlen : l.length ≤ 2000)
    (hfile : ExportOf P l filename data) :
    bookOf P owner key (importContacts P M A sess? mode (importFile P filename data) w).2 =
        l.map (fun c => some c.restored) ∧
      otherRows P owner (importContacts P M A sess? mode (importFile P filename data) w).2 =
        otherRows P owner w := by
  have hread : importFile P filename data = .items (l.map Contact.toItem) := by
    obtain ⟨rfl, hcsv, hsafe⟩ | ⟨rfl, hne, hsafe⟩ := hfile
    · exact importFile_exportCSV hlower hcsv hsafe
    · exact importFile_exportVCF hU hne hsafe
  rw [hread]
  exact import_restores hP hw calls hcalls hctx hempty hl hkeys hlen

/-- Carla, imported by another owner. -/
def carlaImported : BookState :=
  (importContacts .sample .sample {} (some ⟨"b@y", some 2⟩) "skip"
    (importFile .sample "contacts.vcf".toList (exportVCF [carla])) .fresh).2

theorem export_restores_carla : bookOf .sample "b@y" 2 carlaImported = [some carla.restored] ∧
    otherRows .sample "b@y" carlaImported = otherRows .sample "b@y" .fresh := by
  have hwrites : Writable .sample {} "b@y" :=
    ⟨fun _ => rfl, by decide, writable_sample.uuids, writable_sample.uuid⟩
  have hl : ∀ c ∈ [carla], Importable .sample .sample c := fun c hc =>
    List.mem_singleton.mp hc ▸ ⟨by decide, by decide, by decide, by decide⟩
  have hsafe : ∀ c ∈ [carla], CardSafe .sample c.columns :=
    fun c hc => List.mem_singleton.mp hc ▸ cardSafe_carla
  exact export_restores lowerCase_sample keepsLower_sample keepsUpper_sample hwrites [] rfl rfl rfl hl
    (List.nodup_singleton _) (by decide) (.inr ⟨rfl, List.cons_ne_nil _ _, hsafe⟩)

end Restore

end E2Mail.Backend.AddressBook
