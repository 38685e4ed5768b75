import E2Mail.Imap.Search

/-!
# Searching a thread index

A search in a folder that is listed by threads keeps the nodes that the server
finds. Where the server does not answer, the backend makes do with a test of its own
on what the nodes hold.

* `searchUIDs`, `filterThreadIndex` — the search;
* `Searched` — the server has answered, with a set of UIDs;
* `filtered_iff` — when the index that is left has exactly the nodes found;
* `nothing_found_all_shown` — a search that finds nothing and shows everything.
-/

namespace E2Mail.Imap

open Lib

variable (L : SearchLib)

/-- `UID SEARCH` on the server. -/
abbrev UIDSearch := List Criterion → Except String (List Nat)

/-- A slice that was appended to from nil: still nil, if nothing was. -/
def appended (l : List Nat) : Option (List Nat) := if l = [] then none else some l

/-- `searchUIDs`: nil where the query has no conditions; a search for attachments that
fails is made again without them. -/
def searchUIDs (server : UIDSearch) (query : Bytes) : Except String (Option (List Nat)) :=
  let pq := parseSearchQuery L query
  if pq.isEmpty then .ok none
  else
    let criteria := pq.buildCriteria false
    if criteria = [] then .ok none
    else
      let data : Except String (List Nat) :=
        match server criteria with
        | .ok uids => .ok uids
        | .error e =>
          let c2 := pq.buildCriteria true
          if pq.hasAttach && c2 != [] then server c2 else .error e
      match data with
      | .error e => .error ("search failed: " ++ e)
      | .ok uids => .ok (appended uids)

/-- An index with some of the nodes of another. -/
def ThreadIndex.filter (idx : ThreadIndex) (p : ThreadNode → Bool) : ThreadIndex :=
  { uidValidity := idx.uidValidity
    uidNext := 0
    count := 0
    builtAt := 0
    nodes := idx.nodes.delete fun n => !p n }

/-- `filterIndexByUIDs`. -/
def filterIndexByUIDs (idx : ThreadIndex) (uids : List Nat) : ThreadIndex :=
  idx.filter fun n => uids.contains n.uid

/-- `filterIndexByPredicate`. -/
def filterIndexByPredicate (idx : ThreadIndex) (pq : SearchQuery) : ThreadIndex :=
  idx.filter (pq.matchesNode L)

/-- `filterThreadIndex`. -/
def filterThreadIndex (server : UIDSearch) (idx : ThreadIndex) (query : Bytes) : ThreadIndex :=
  let pq := parseSearchQuery L query
  if pq.isEmpty then idx
  else
    match searchUIDs L server query with
    | .ok (some uids) => filterIndexByUIDs idx uids
    | _ => filterIndexByPredicate L idx pq

/-- The server was asked and has answered: the first time, or the second, without
attachments. -/
def Searched (server : UIDSearch) (query : Bytes) (found : List Nat) : Prop :=
  let pq := parseSearchQuery L query
  pq.isEmpty = false ∧ pq.buildCriteria false ≠ [] ∧
    (server (pq.buildCriteria false) = .ok found ∨
      (∃ e, server (pq.buildCriteria false) = .error e) ∧ pq.hasAttach = true ∧
        pq.buildCriteria true ≠ [] ∧ server (pq.buildCriteria true) = .ok found)

section Filter

variable {L : SearchLib} {server : UIDSearch} {query : Bytes} {found : List Nat}
  {idx : ThreadIndex} {n : ThreadNode}

theorem mem_filter {p : ThreadNode → Bool} :
    n ∈ (idx.filter p).nodes.rows ↔ n ∈ idx.nodes.rows ∧ p n = true := by
  rw [ThreadIndex.filter, Table.mem_delete, Bool.not_eq_false']

/-- What the server found comes back from `searchUIDs`, nil if it found nothing. -/
theorem searchUIDs_of_searched (h : Searched L server query found) :
    searchUIDs L server query = .ok (appended found) := by
  obtain ⟨hempty, hcrit, hanswer⟩ := h
  simp only [searchUIDs, hempty, Bool.false_eq_true, if_false, if_neg hcrit]
  rcases hanswer with hfirst | ⟨⟨e, hfirst⟩, hattach, hcrit', hsecond⟩
  · rw [hfirst]
  · have hne : ((parseSearchQuery L query).buildCriteria true != []) = true := by simpa using hcrit'
    simp only [hfirst, hattach, hne, Bool.and_self, if_true, hsecond]

/-- **Filtered.** When the server has answered, the index that is left has exactly the
nodes it found, if it found any, or if the test of the backend finds none either. -/
theorem filtered_iff (h : Searched L server query found) :
    (∀ n, n ∈ (filterThreadIndex L server idx query).nodes.rows ↔
      n ∈ idx.nodes.rows ∧ n.uid ∈ found) ↔
    found ≠ [] ∨ ∀ n ∈ idx.nodes.rows, (parseSearchQuery L query).matchesNode L n = false := by
  have hempty := h.1
  rw [filterThreadIndex, hempty, if_neg Bool.false_ne_true, searchUIDs_of_searched h, appended]
  by_cases hfound : found = []
  · rw [if_pos hfound, hfound]
    simp only [filterIndexByPredicate, mem_filter, List.not_mem_nil, and_false, iff_false,
      not_and, Bool.not_eq_true, ne_eq, not_true, false_or]
  · rw [if_neg hfound]
    refine iff_of_true (fun n => ?_) (.inl hfound)
    dsimp only
    rw [filterIndexByUIDs, mem_filter, List.contains_iff_mem]

end Filter

/-! ## Two searches -/

/-- The letters of ASCII; no dates and no sizes. -/
def asciiSearch : SearchLib where
  toLower := lowerKey
  trimSpace s := ((s.dropWhile isSpaceByte).reverse.dropWhile isSpaceByte).reverse
  parseSearchDate _ := none
  parseSearchSize _ := none

/-- The index of a folder with one message. -/
def oneNode : ThreadIndex :=
  { uidValidity := 1
    uidNext := 2
    count := 1
    builtAt := 0
    nodes := fetchThreadNodes asciiHeaders Table.empty
      ⟨[(1, ⟨[], ⟨"<a>", [], "hello", 0, [], ""⟩⟩)], none⟩ }

/-- A server that finds the same messages whatever it is asked. -/
def finds (uids : List Nat) : UIDSearch := fun _ => .ok uids

/-- A search for attachments, as it is typed in. -/
def hasAttachment : Bytes := utf8 "has:attachment"

theorem searched_hasAttachment (uids : List Nat) :
    Searched asciiSearch (finds uids) hasAttachment uids :=
  ⟨by decide +kernel, by decide +kernel, .inl rfl⟩

/-- The message has an attachment, and it is found. -/
theorem filtered_iff_found :
    Searched asciiSearch (finds [1]) hasAttachment [1] ∧
    ∀ n, n ∈ (filterThreadIndex asciiSearch (finds [1]) oneNode hasAttachment).nodes.rows ↔
      n ∈ oneNode.nodes.rows ∧ n.uid ∈ [1] :=
  ⟨searched_hasAttachment [1], (filtered_iff (searched_hasAttachment [1])).mpr (.inl (by decide))⟩

/-- **Nothing found, all shown.** No message has an attachment, and the list shows every
message. -/
theorem nothing_found_all_shown :
    ¬ ∀ (server : UIDSearch) (idx : ThreadIndex) (query : Bytes) (found : List Nat),
      Searched asciiSearch server query found → ∀ n,
        n ∈ (filterThreadIndex asciiSearch server idx query).nodes.rows ↔
          n ∈ idx.nodes.rows ∧ n.uid ∈ found := by
  intro h
  have hall := h (finds []) oneNode hasAttachment [] (searched_hasAttachment [])
  have hrows : (filterThreadIndex asciiSearch (finds []) oneNode hasAttachment).nodes.rows ≠ [] := by
    decide +kernel
  obtain ⟨n, hn⟩ := List.exists_mem_of_ne_nil _ hrows
  exact absurd ((hall n).mp hn).2 List.not_mem_nil

end E2Mail.Imap
