import E2Mail.Lib.Csv
import E2Mail.Lib.Escapes
import E2Mail.Backend.AddressBook

/-!
# Contacts in files

The address book is exported as CSV, and an import reads such a file. In front of a field that a
spreadsheet would take for a formula the export puts an apostrophe; the import takes it off again
from the address, and from nothing else.

* `exportCSV`, `parseCSV` — the two ways.
* `parseCSV_exportCSV` — what the import makes of an exported file.
* `parseCSV_exportCSV_iff` — when that is what was exported.
-/

namespace E2Mail.Backend.AddressBook

open Lib Lib.Csv

-- a bounded quantifier is decided over its list or option, not over all characters
attribute [local instance (1100)] List.decidableBAll Option.decidableForallMem

/-! ## Writing -/

/-- `safe`, against formulas. -/
def safe (s : Text) : Text := if s.head?.any fun c => "=+-@".toList.contains c then '\'' :: s else s

def csvHeader : List Text :=
  ["email".toList, "display_name".toList, "given_name".toList, "family_name".toList, "note".toList]

def csvRow (c : Columns String) : List Text :=
  [safe c.email.toList, safe c.displayName.toList, safe c.givenName.toList, safe c.familyName.toList,
    safe c.note.toList]

/-- `Export`, as CSV. -/
def exportCSV (l : List Contact) : Text := writeAll isSpace (csvHeader :: l.map fun c => csvRow c.columns)

/-! ## Reading -/

/-- The columns in which the fields are, where they are in the file. -/
structure CsvColumns where
  email : Option Nat
  displayName : Option Nat
  givenName : Option Nat
  familyName : Option Nat
  note : Option Nat
  deriving DecidableEq

section Parse

variable (P : Params)

def trimText (s : Text) : Text := Text.trimBy isSpace s

def lowerText (s : Text) : Text := s.map P.toLower

def headerNames : List Text :=
  ["email".toList, "display_name".toList, "displayname".toList, "given_name".toList, "family_name".toList,
    "note".toList]

def hasHeader (header : List Text) : Bool :=
  header.any fun h => headerNames.contains (lowerText P (trimText h))

/-- The last column with the name. -/
def columnOf (header : List Text) (name : String) : Option Nat :=
  header.zipIdx.foldl (fun found h =>
    if Text.replaceAll [' '] ['_'] (lowerText P (trimText h.1)) = name.toList then some h.2 else found) none

def csvColumns (header : List Text) : CsvColumns :=
  if hasHeader P header then
    ⟨columnOf P header "email", (columnOf P header "display_name").or (columnOf P header "displayname"),
      columnOf P header "given_name", columnOf P header "family_name", columnOf P header "note"⟩
  else ⟨some 0, some 1, some 2, some 3, some 4⟩

/-- `get`. -/
def field (rec : List Text) (idx : Option Nat) : Text := (idx.bind (rec[·]?)).elim [] trimText

/-- The item of a row, if it has an address. -/
def csvItem (header : Bool) (cols : CsvColumns) (rec : List Text) : Option ImpItem :=
  let email := field rec cols.email
  let email := if !header && email.isEmpty then field rec (some 0) else email
  let email := Text.trimPrefix ['\''] email
  if email = [] then none
  else some ⟨.ofList email, .ofList (field rec cols.displayName), .ofList (field rec cols.givenName),
    .ofList (field rec cols.familyName), .ofList (field rec cols.note)⟩

/-- `parseCSV`; the error is that of `encoding/csv`. -/
def parseCSV (data : Text) : Except String (List ImpItem) :=
  match readAll isSpace data with
  | .error line => .error ("record on line " ++ toString line ++ ": wrong number of fields")
  | .ok [] => .ok []
  | .ok (header :: rest) =>
    let cols := csvColumns P header
    if hasHeader P header then .ok (rest.filterMap (csvItem true cols))
    else .ok ((header :: rest).filterMap (csvItem false cols))

end Parse

/-! ## What comes back -/

section RoundTrip

variable {P : Params} {s : Text} {c : Contact}

theorem unixLines_sublist (s : Text) : (unixLines s).Sublist s := by
  induction s with
  | nil => exact List.Sublist.refl []
  | cons c s ih =>
    rw [unixLines]
    split
    · exact ih.cons c
    · exact ih.cons_cons c

theorem unixLines_eq_self_iff : unixLines s = s ↔ ¬['\r', '\n'] <:+: s := by
  induction s with
  | nil => simp [unixLines]
  | cons c s ih =>
    have hprefix : ['\r', '\n'] <+: c :: s ↔ c = '\r' ∧ s.head? = some '\n' := by
      rw [List.cons_prefix_cons, eq_comm]
      cases s <;> simp [eq_comm]
    rw [List.infix_cons_iff, hprefix, unixLines]
    split
    · rename_i hc
      have hle := (unixLines_sublist s).length_le
      refine iff_of_false (fun h => ?_) (not_not_intro (.inl hc))
      rw [h, List.length_cons] at hle
      omega
    · rename_i hc
      rw [or_iff_right hc, ← ih, List.cons_inj_right]

/-- What the import makes of a field of the export. -/
def fieldBack (s : Text) : Text := trimText (unixLines (safe s))

/-- The item that the import makes of a contact in the export. -/
def csvBack (c : Columns String) : Option ImpItem :=
  let email := Text.trimPrefix ['\''] (fieldBack c.email.toList)
  if email = [] then none
  else some ⟨.ofList email, .ofList (fieldBack c.displayName.toList), .ofList (fieldBack c.givenName.toList),
    .ofList (fieldBack c.familyName.toList), .ofList (fieldBack c.note.toList)⟩

/-- Letters in lower case stay. -/
def KeepsLower (P : Params) : Prop := ∀ c : Char, c.isLower = true ∨ c = '_' → P.toLower c = c

theorem lowerText_eq (hP : KeepsLower P) (hs : ∀ c ∈ s, c.isLower = true ∨ c = '_') : lowerText P s = s := by
  rw [lowerText]
  conv_rhs => rw [← List.map_id s]
  exact List.map_congr_left fun c hc => hP c (hs c hc)

theorem csvHeader_lower (hP : KeepsLower P) : ∀ h ∈ csvHeader, lowerText P (trimText h) = h := by
  intro h hh
  have htrim : ∀ h ∈ csvHeader, trimText h = h := by decide
  have hletters : ∀ h ∈ csvHeader, ∀ c ∈ h, c.isLower = true ∨ c = '_' := by decide
  rw [htrim h hh, lowerText_eq hP (hletters h hh)]

theorem hasHeader_csvHeader (hP : KeepsLower P) : hasHeader P csvHeader = true := by
  refine List.any_eq_true.mpr ⟨"email".toList, List.mem_cons_self, ?_⟩
  rw [csvHeader_lower hP _ List.mem_cons_self]
  decide

theorem columnOf_csvHeader (hP : KeepsLower P) (name : String) : columnOf P csvHeader name =
    csvHeader.zipIdx.foldl (fun found h => if h.1 = name.toList then some h.2 else found) none := by
  rw [columnOf]
  refine List.foldl_ext _ _ _ fun found h hh => ?_
  have hin : h.1 ∈ csvHeader := List.mem_of_getElem? (List.mem_zipIdx_iff_getElem?.mp hh)
  have hplain : ∀ h ∈ csvHeader, Text.replaceAll [' '] ['_'] h = h := by decide
  rw [csvHeader_lower hP h.1 hin, hplain h.1 hin]

theorem csvColumns_csvHeader (hP : KeepsLower P) :
    csvColumns P csvHeader = ⟨some 0, some 1, some 2, some 3, some 4⟩ := by
  rw [csvColumns, if_pos (hasHeader_csvHeader hP)]
  simp only [columnOf_csvHeader hP]
  decide

theorem readAll_exportCSV (l : List Contact) : readAll isSpace (exportCSV l) =
    .ok (csvHeader :: l.map fun c => (csvRow c.columns).map unixLines) := by
  have hlen : ∀ r ∈ csvHeader :: l.map fun c => csvRow c.columns, r.length = 3 + 2 := by
    intro r hr
    rcases List.mem_cons.mp hr with rfl | hr
    · rfl
    · obtain ⟨c, -, rfl⟩ := List.mem_map.mp hr
      rfl
  have hheader : csvHeader.map unixLines = csvHeader := by decide
  rw [exportCSV, readAll_writeAll (by decide) (by decide) hlen, List.map_cons, hheader, List.map_map]
  rfl

theorem csvItem_csvRow (c : Columns String) :
    csvItem true ⟨some 0, some 1, some 2, some 3, some 4⟩ ((csvRow c).map unixLines) = csvBack c := rfl

/-- **What the import makes of an exported file.** -/
theorem parseCSV_exportCSV (hP : KeepsLower P) (l : List Contact) :
    parseCSV P (exportCSV l) = .ok (l.filterMap fun c => csvBack c.columns) := by
  rw [parseCSV, readAll_exportCSV]
  simp only [if_pos (hasHeader_csvHeader hP), csvColumns_csvHeader hP, List.filterMap_map, Function.comp_def,
    csvItem_csvRow]

/-- A field that a spreadsheet takes for a formula. -/
def Formula (s : Text) : Prop := ∃ c ∈ s.head?, c ∈ "=+-@".toList

/-- A text with no line break of another system in it and no space at its end. -/
structure Even (s : Text) : Prop where
  lines : ¬['\r', '\n'] <:+: s
  last : ∀ c ∈ s.getLast?, isSpace c = false

theorem safe_of_formula (h : Formula s) : safe s = '\'' :: s := by
  obtain ⟨c, hc, hin⟩ := h
  rw [Option.mem_def] at hc
  rw [safe, hc, Option.any_some, if_pos (List.contains_iff_mem.mpr hin)]

theorem safe_of_not_formula (h : ¬Formula s) : safe s = s := by
  refine if_neg fun hany => h ?_
  obtain ⟨c, hc, hin⟩ := Option.any_eq_true .. |>.mp hany
  exact ⟨c, hc, List.contains_iff_mem.mp hin⟩

/-- A text is read as it was written. -/
theorem trimText_unixLines_eq_iff :
    trimText (unixLines s) = s ↔ Even s ∧ ∀ c ∈ s.head?, isSpace c = false := by
  constructor
  · intro h
    have hsame : unixLines s = s := by
      refine (unixLines_sublist s).eq_of_length_le ?_
      conv_lhs => rw [← h]
      exact Escapes.length_trimBy_le isSpace (unixLines s)
    rw [hsame] at h
    obtain ⟨hhead, hlast⟩ := Escapes.trimBy_eq_self_iff.mp h
    exact ⟨⟨unixLines_eq_self_iff.mp hsame, hlast⟩, hhead⟩
  · rintro ⟨⟨hlines, hlast⟩, hhead⟩
    rw [unixLines_eq_self_iff.mpr hlines]
    exact Escapes.trimBy_eq_self_iff.mpr ⟨hhead, hlast⟩

/-- The ends of a text behind an apostrophe. -/
theorem trimText_quote (s : Text) : trimText (unixLines ('\'' :: s)) =
    '\'' :: ((unixLines s).reverse.dropWhile isSpace).reverse := by
  rw [unixLines_cons (by decide), trimText, Escapes.trimBy_cons (by decide)]

theorem dropBack_sublist (s : Text) : ((s.reverse.dropWhile isSpace).reverse).Sublist s := by
  have hback := (List.dropWhile_sublist isSpace (l := s.reverse)).reverse
  rwa [List.reverse_reverse] at hback

theorem dropBack_unixLines_eq_iff : ((unixLines s).reverse.dropWhile isSpace).reverse = s ↔ Even s := by
  constructor
  · intro h
    have hsame : unixLines s = s := by
      refine (unixLines_sublist s).eq_of_length_le ?_
      conv_lhs => rw [← h]
      exact (dropBack_sublist (unixLines s)).length_le
    rw [hsame] at h
    refine ⟨unixLines_eq_self_iff.mp hsame, fun c hc => ?_⟩
    rw [← h, List.getLast?_reverse] at hc
    exact Lib.Text.head?_dropWhile _ c hc
  · rintro ⟨hlines, hlast⟩
    rw [unixLines_eq_self_iff.mpr hlines, Lib.Text.dropWhile_eq_self, List.reverse_reverse]
    rwa [List.head?_reverse]

/-- A field comes back as it was. -/
theorem fieldBack_eq_iff : fieldBack s = s ↔ ¬Formula s ∧ Even s ∧ ∀ c ∈ s.head?, isSpace c = false := by
  rw [fieldBack]
  by_cases hformula : Formula s
  · rw [safe_of_formula hformula, trimText_quote]
    refine iff_of_false (fun h => ?_) fun h => h.1 hformula
    obtain ⟨c, hc, hin⟩ := hformula
    rw [← h, List.head?_cons, Option.mem_some_iff] at hc
    rw [← hc] at hin
    exact absurd hin (by decide)
  · rw [safe_of_not_formula hformula, trimText_unixLines_eq_iff, and_iff_right hformula]

/-- And so does an address. -/
theorem emailBack_eq_iff : Lib.Text.trimPrefix ['\''] (fieldBack s) = s ↔
    Even s ∧ ∀ c ∈ s.head?, isSpace c = false ∧ c ≠ '\'' := by
  rw [fieldBack]
  by_cases hformula : Formula s
  · have hhead : ∀ c ∈ s.head?, isSpace c = false ∧ c ≠ '\'' := by
      obtain ⟨c, hc, hin⟩ := hformula
      have hplain : ∀ c ∈ "=+-@".toList, isSpace c = false ∧ c ≠ '\'' := by decide
      intro d hd
      rw [Option.mem_def.mp hc, Option.mem_some_iff] at hd
      exact hd ▸ hplain c hin
    rw [safe_of_formula hformula, trimText_quote, and_iff_left hhead, ← dropBack_unixLines_eq_iff]
    rfl
  · have hquote : ['\''].isPrefixOf s = true ↔ s.head? = some '\'' := by
      cases s with
      | nil => simp
      | cons d s => simp [eq_comm (a := d)]
    have hle : (trimText (unixLines s)).length ≤ s.length :=
      (Escapes.length_trimBy_le isSpace _).trans (unixLines_sublist s).length_le
    rw [safe_of_not_formula hformula, Lib.Text.trimPrefix]
    constructor
    · intro h
      split at h
      · rename_i hprefix
        -- the apostrophe would be missing
        have hlen := congrArg List.length h
        have hpos := (List.isPrefixOf_iff_prefix.mp hprefix).length_le
        rw [List.length_drop, List.length_singleton] at hlen
        rw [List.length_singleton] at hpos
        omega
      · rename_i hprefix
        obtain ⟨heven, hhead⟩ := trimText_unixLines_eq_iff.mp h
        refine ⟨heven, fun c hc => ⟨hhead c hc, ?_⟩⟩
        rintro rfl
        rw [h] at hprefix
        exact hprefix (hquote.mpr hc)
    · rintro ⟨heven, hhead⟩
      rw [trimText_unixLines_eq_iff.mpr ⟨heven, fun c hc => (hhead c hc).1⟩]
      exact if_neg fun hprefix => (hhead _ (hquote.mp hprefix)).2 rfl

/-- The item of a contact. -/
def Contact.toItem (c : Contact) : ImpItem :=
  ⟨c.columns.email, c.columns.displayName, c.columns.givenName, c.columns.familyName, c.columns.note⟩

/-- A contact that comes back. -/
structure CsvSafe (c : Columns String) : Prop where
  email : c.email ≠ "" ∧ Even c.email.toList ∧ ∀ d ∈ c.email.toList.head?, isSpace d = false ∧ d ≠ '\''
  fields : ∀ s ∈ [c.displayName, c.givenName, c.familyName, c.note],
    ¬Formula s.toList ∧ Even s.toList ∧ ∀ d ∈ s.toList.head?, isSpace d = false

theorem ofList_eq_iff {t : Text} {u : String} : String.ofList t = u ↔ t = u.toList := by
  rw [← String.toList_inj, String.toList_ofList]

theorem csvBack_eq_iff : csvBack c.columns = some c.toItem ↔ CsvSafe c.columns := by
  have hfields : (∀ s ∈ [c.columns.displayName, c.columns.givenName, c.columns.familyName, c.columns.note],
      ¬Formula s.toList ∧ Even s.toList ∧ ∀ d ∈ s.toList.head?, isSpace d = false) ↔
      fieldBack c.columns.displayName.toList = c.columns.displayName.toList ∧
        fieldBack c.columns.givenName.toList = c.columns.givenName.toList ∧
        fieldBack c.columns.familyName.toList = c.columns.familyName.toList ∧
        fieldBack c.columns.note.toList = c.columns.note.toList := by
    simp only [← fieldBack_eq_iff, List.forall_mem_cons, List.not_mem_nil, false_implies,
      implies_true, and_true]
  have hempty : c.columns.email ≠ "" ↔ c.columns.email.toList ≠ [] := by
    rw [Ne, ← String.toList_inj]
    rfl
  rw [csvBack]
  constructor
  · intro h
    split at h
    · cases h
    · rename_i hne
      simp only [Contact.toItem, Option.some.injEq, ImpItem.mk.injEq, ofList_eq_iff] at h
      obtain ⟨hemail, hrest⟩ := h
      rw [hemail] at hne
      exact ⟨⟨hempty.mpr hne, emailBack_eq_iff.mp hemail⟩, hfields.mpr hrest⟩
  · rintro ⟨⟨hne, hemail⟩, hrest⟩
    have hsame := emailBack_eq_iff.mpr hemail
    simp only [hsame, if_neg (hempty.mp hne), Contact.toItem, Option.some.injEq, ImpItem.mk.injEq,
      ofList_eq_iff]
    exact ⟨trivial, hfields.mp hrest⟩

/-- **An export is read as it was written** if and only if every contact in it is safe. -/
theorem parseCSV_exportCSV_iff (hP : KeepsLower P) (l : List Contact) :
    parseCSV P (exportCSV l) = .ok (l.map Contact.toItem) ↔ ∀ c ∈ l, CsvSafe c.columns := by
  rw [parseCSV_exportCSV hP, Except.ok.injEq, List.filterMap_eq_map_iff_forall_eq_some]
  exact forall₂_congr fun c _ => csvBack_eq_iff

/-- A contact that comes back, from a file of two lines. -/
def carla : Contact where
  id := "u"
  ownerEmail := "a@x"
  columns := ⟨"c@z", "Carla, \"C\"", "Carla", "Z", "", "manual"⟩

theorem keepsLower_sample : KeepsLower .sample := fun _ _ => rfl

theorem csvSafe_carla : CsvSafe carla.columns := by
  have hplain : ∀ s ∈ ["c@z", "Carla, \"C\"", "Carla", "Z", ""], '\r' ∉ s.toList ∧
      (∀ d ∈ s.toList.getLast?, isSpace d = false) ∧
      ∀ d ∈ s.toList.head?, isSpace d = false ∧ d ∉ "=+-@'".toList := by
    decide
  have heven : ∀ s ∈ ["c@z", "Carla, \"C\"", "Carla", "Z", ""], Even s.toList := fun s hs =>
    ⟨fun hin => (hplain s hs).1 (hin.subset List.mem_cons_self), (hplain s hs).2.1⟩
  refine ⟨⟨by decide, heven _ List.mem_cons_self, by decide⟩, fun s hs => ?_⟩
  have hs := List.mem_cons_of_mem "c@z" hs
  refine ⟨fun ⟨c, hc, hin⟩ => ?_, heven s hs, fun d hd => ((hplain s hs).2.2 d hd).1⟩
  exact ((hplain s hs).2.2 c hc).2 (List.mem_append_left ['\''] hin)

theorem parseCSV_exportCSV_carla : parseCSV .sample (exportCSV [carla]) = .ok [carla.toItem] :=
  (parseCSV_exportCSV_iff keepsLower_sample [carla]).mpr fun _ hc => List.mem_singleton.mp hc ▸ csvSafe_carla

end RoundTrip

end E2Mail.Backend.AddressBook
