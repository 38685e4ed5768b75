import E2Mail.Imap.PageArithmetic
import E2Mail.Imap.ThreadFilter
import E2Mail.Imap.ThreadList

/-!
# Lists in pages

The three lists of the backend: the messages of a folder, its threads, and the unread messages of
all folders. The last one is made of what the first one answers for each folder.

* `fetchMessageSummaries`, `fetchThreadList`, `fetchAllUnread` — the lists;
* `fetchMessageSummaries_eq` — a page of the messages that are found;
* `complete_iff` — when every unread message is in the list;
* `paging_iff` — when the lists are paged, and when the unread messages are all there.
-/

namespace E2Mail.Imap.Pages

open Lib

/-! ## A folder -/

/-- `Search` on the selected folder. -/
abbrev SeqSearch := List Criterion → Except String (List Nat)

/-- A folder that is selected, on a server that answers as IMAP has it. -/
structure Selected where
  /-- its messages -/
  box : Mailbox
  /-- a sequence number has 32 bits -/
  length_lt : box.items.length < 2 ^ 32
  /-- `SEARCH` -/
  search : SeqSearch
  /-- it finds messages of the folder, and each once -/
  found : ∀ cs nums, search cs = .ok nums →
    nums.Nodup ∧ ∀ n ∈ nums, 1 ≤ n ∧ n ≤ box.items.length
  /-- `UNSEEN` -/
  unseen : ∀ nums, search [.notFlag "\\Seen"] = .ok nums → ∀ i p, box.items[i]? = some p →
    (i + 1 ∈ nums ↔ p.2.flags.contains "\\Seen" = false)
  /-- `FETCH`: the messages as they come in -/
  fetch : List Nat → List (Nat × Message)
  /-- those that were asked for come, in some order -/
  fetched : ∀ nums, (fetch nums).Perm
    (((List.range' 1 box.items.length).filter (· ∈ nums)).filterMap fun n => box.items[n - 1]?)

variable (L : SearchLib) (H : Headers)

/-- `matchedSeqNums`. -/
def matchedSeqNums (sel : Selected) (query : Bytes) : Except String (List Nat) :=
  let all := List.range' 1 sel.box.items.length
  if query = [] then .ok all
  else
    let pq := parseSearchQuery L query
    if pq.isEmpty then .ok all
    else
      let criteria := pq.buildCriteria false
      if criteria = [] then .ok all
      else
        let data : Except String (List Nat) :=
          match sel.search criteria with
          | .ok nums => .ok nums
          | .error e =>
            let c2 := pq.buildCriteria true
            if pq.hasAttach && c2 != [] then sel.search c2 else .error e
        match data with
        | .ok nums => .ok nums
        | .error e => .error ("search failed: " ++ e)

/-- The summary that `FetchMessageSummaries` makes of a message. -/
def messageSummary (p : Nat × Message) : MessageSummary where
  uid := p.1
  messageID := p.2.content.messageID
  subject := H.decodeRFC2047 p.2.content.subject
  date := p.2.content.date
  senders := p.2.content.senders.map fun a => ⟨H.decodeRFC2047 a.1, a.2⟩
  unread := !p.2.flags.contains "\\Seen"
  starred := p.2.flags.contains "\\Flagged"
  hasAttachment := false
  threadID := ""

/-- `sort.Slice` of numbers, the greatest first. -/
def newestFirst (nums : List Nat) : List Nat := nums.mergeSort fun a b => decide (b ≤ a)

/-- `sort.Slice` of the summaries: no two have one UID. -/
def sortSummaries (summaries : List MessageSummary) : List MessageSummary :=
  summaries.mergeSort fun a b => decide (b.uid ≤ a.uid)

/-- `FetchMessageSummaries`, where the folder is selected. -/
def fetchMessageSummaries (sel : Selected) (folder : String) (page limit : Int) (query : Bytes) :
    Except Failure (Answer MessageSummary) :=
  if sel.box.items.length = 0 then .ok ⟨folder, "", 0, page, limit, 0, []⟩
  else
    match matchedSeqNums L sel query with
    | .error e => .error (.error e)
    | .ok nums =>
      let matched := newestFirst nums
      let total : Int := matched.length
      let page := if page < 1 then 1 else page
      match cutEarly matched page limit with
      | .error e => .error e
      | .ok pageSeqNums =>
        if pageSeqNums = [] then .ok ⟨folder, "", total, page, limit, totalPages total limit, []⟩
        else .ok ⟨folder, "", total, page, limit, totalPages total limit,
          sortSummaries ((sel.fetch pageSeqNums).map (messageSummary H))⟩

/-! ## The other lists -/

/-- `threadIndexMaxMsgs`. -/
def threadIndexMaxMsgs : Nat := 20000

/-- `FetchThreadList`, with the threads as they are sorted. -/
def fetchThreadList (folder : String) (numMessages : Nat) (threads : List ThreadSummary)
    (page limit : Int) : Except Failure (Answer ThreadSummary) :=
  if numMessages = 0 then .ok ⟨folder, "threads", 0, page, limit, 0, []⟩
  else if numMessages > threadIndexMaxMsgs then .error (.error "ThreadUnavailableError")
  else
    let page := if page < 1 then 1 else page
    (cutClamped threads page limit).map fun items =>
      ⟨folder, "threads", threads.length, page, limit, totalPages threads.length limit, items⟩

/-- A message in the list of unread messages. -/
structure FolderSummary where
  folder : String
  summary : MessageSummary
  deriving DecidableEq

/-- `bigLimit`. -/
def bigLimit : Int := 10000

/-- One round of `FetchAllUnread`: the unread messages of a folder. A folder that cannot be read is
left out. -/
def unreadOf (read : String → Except String Selected) (f : String) :
    Except Failure (List FolderSummary) :=
  if trimSpace f = "" then .ok []
  else
    match read f with
    | .error _ => .ok []
    | .ok sel =>
      match fetchMessageSummaries L H sel f 1 bigLimit (utf8 "is:unread") with
      | .ok res => .ok (res.items.map fun s => ⟨f, s⟩)
      | .error (.error _) => .ok []
      | .error .outOfRange => .error .outOfRange

/-- `all`. -/
def allUnread (read : String → Except String Selected) (folders : List String) :
    Except Failure (List FolderSummary) :=
  (folders.mapM (unreadOf L H read)).map List.flatten

/-- `FetchAllUnread`; the sort puts the newest first. -/
def fetchAllUnread (sort : List FolderSummary → List FolderSummary)
    (read : String → Except String Selected) (folders : List String) (page limit : Int) :
    Except Failure (Answer FolderSummary) :=
  match allUnread L H read folders with
  | .error e => .error e
  | .ok all =>
    let all := sort all
    if all.length = 0 then .ok ⟨"unread", "messages", 0, page, limit, 0, []⟩
    else
      (cutClamped all (if page < 1 then 1 else page) limit).map fun items =>
        ⟨"unread", "messages", all.length, page, limit, totalPages all.length limit, items⟩

/-! ## The messages of a page -/

section Folder

variable {L : SearchLib} {H : Headers} {sel : Selected} {nums : List Nat}

/-- Numbers of messages, each once. -/
def Selected.Numbers (sel : Selected) (nums : List Nat) : Prop :=
  nums.Nodup ∧ ∀ n ∈ nums, 1 ≤ n ∧ n ≤ sel.box.items.length

/-- The summaries of the messages with some numbers. -/
def Selected.summaries (H : Headers) (sel : Selected) (nums : List Nat) : List MessageSummary :=
  (nums.filterMap fun n => sel.box.items[n - 1]?).map (messageSummary H)

theorem numbers_all : sel.Numbers (List.range' 1 sel.box.items.length) := by
  refine ⟨List.nodup_range', fun n hn => ?_⟩
  rw [List.mem_range'_1] at hn
  omega

theorem numbers_matchedSeqNums {query : Bytes} (h : matchedSeqNums L sel query = .ok nums) :
    sel.Numbers nums := by
  rw [matchedSeqNums] at h
  dsimp only at h
  split at h
  · cases h
    exact numbers_all
  · split at h
    · cases h
      exact numbers_all
    · split at h
      · cases h
        exact numbers_all
      · have hsearch : ∃ cs, sel.search cs = .ok nums := by
          cases hs : sel.search ((parseSearchQuery L query).buildCriteria false) with
          | ok nums' =>
            rw [hs] at h
            cases h
            exact ⟨_, hs⟩
          | error e =>
            rw [hs] at h
            dsimp only at h
            split at h
            · rename_i hc
              cases h
              split at hc
              · exact ⟨_, hc⟩
              · cases hc
            · cases h
        obtain ⟨cs, hcs⟩ := hsearch
        exact sel.found cs nums hcs

/-- What is sorted by a number, the greatest first. -/
theorem pairwise_mergeSort_le {β : Type} (f : β → Nat) (l : List β) :
    (l.mergeSort fun a b => decide (f b ≤ f a)).Pairwise fun a b => f b ≤ f a := by
  refine (List.pairwise_mergeSort ?_ ?_ l).imp of_decide_eq_true
  · intro a b c
    simp only [decide_eq_true_eq]
    omega
  · intro a b
    simp only [Bool.or_eq_true, decide_eq_true_eq]
    omega

theorem newestFirst_perm : (newestFirst nums).Perm nums := List.mergeSort_perm _ _

/-- The numbers of a list, each once, get smaller. -/
theorem newestFirst_pairwise (h : nums.Nodup) : (newestFirst nums).Pairwise fun a b => b < a := by
  have hnodup := newestFirst_perm.nodup_iff.2 h
  exact ((pairwise_mergeSort_le id nums).and hnodup).imp fun hab =>
    Nat.lt_of_le_of_ne hab.1 hab.2.symm

/-- Messages with smaller numbers have smaller UIDs. -/
theorem summaries_pairwise (h : nums.Pairwise fun a b => b < a) (hpos : ∀ n ∈ nums, 1 ≤ n) :
    (sel.summaries H nums).Pairwise fun a b => b.uid < a.uid := by
  rw [Selected.summaries, List.pairwise_map, List.pairwise_filterMap]
  refine h.imp_of_mem fun {a b} ha hb hba p hp q hq => ?_
  obtain ⟨hlt, rfl⟩ := List.getElem?_eq_some_iff.1 hp
  obtain ⟨hlt', rfl⟩ := List.getElem?_eq_some_iff.1 hq
  have hb1 := hpos b hb
  exact List.pairwise_iff_getElem.1 sel.box.increasing _ _ hlt' hlt (by omega)

/-- **The messages of a page** come in the order of their numbers, whatever the order of the
answers. -/
theorem sortSummaries_fetch (h : nums.Pairwise fun a b => b < a)
    (hrange : ∀ n ∈ nums, 1 ≤ n ∧ n ≤ sel.box.items.length) :
    sortSummaries ((sel.fetch nums).map (messageSummary H)) = sel.summaries H nums := by
  have hasked : ((List.range' 1 sel.box.items.length).filter (· ∈ nums)).Perm nums := by
    refine (List.perm_ext_iff_of_nodup (List.Nodup.filter _ List.nodup_range')
      (h.imp (by omega))).2 fun n => ?_
    rw [List.mem_filter, decide_eq_true_eq, List.mem_range'_1]
    refine ⟨fun hn => hn.2, fun hn => ⟨?_, hn⟩⟩
    have hbounds := hrange n hn
    omega
  have hperm : (sortSummaries ((sel.fetch nums).map (messageSummary H))).Perm
      (sel.summaries H nums) :=
    (List.mergeSort_perm _ _).trans (((sel.fetched nums).trans (hasked.filterMap _)).map _)
  have hstrict : (sel.summaries H nums).Pairwise fun a b => b.uid < a.uid :=
    summaries_pairwise h fun n hn => (hrange n hn).1
  have hsorted := pairwise_mergeSort_le MessageSummary.uid ((sel.fetch nums).map (messageSummary H))
  have huid : ((sel.summaries H nums).map MessageSummary.uid).Nodup := by
    rw [List.Nodup, List.pairwise_map]
    exact hstrict.imp (by omega)
  refine List.Perm.eq_of_pairwise ?_ hsorted (hstrict.imp Nat.le_of_lt) hperm
  intro a b ha hb hab hba
  exact List.inj_on_of_nodup_map huid (hperm.mem_iff.1 ha) hb (by omega)

theorem filterMap_window {β γ : Type} {f : β → Option γ} {l : List β} (h : ∀ b ∈ l, (f b).isSome)
    (n k : Nat) : ((l.drop n).take k).filterMap f = ((l.filterMap f).drop n).take k := by
  induction l generalizing n k with
  | nil => simp
  | cons b l ih =>
    obtain ⟨c, hc⟩ := Option.isSome_iff_exists.1 (h b List.mem_cons_self)
    have hl := ih fun b' hb' => h b' (List.mem_cons_of_mem _ hb')
    rw [List.filterMap_cons_some hc]
    cases n with
    | succ n => exact hl n k
    | zero =>
      cases k with
      | zero => rfl
      | succ k =>
        have hzero := hl 0 k
        rw [List.drop_zero, List.drop_zero] at hzero
        rw [List.drop_zero, List.drop_zero, List.take_succ_cons, List.take_succ_cons,
          List.filterMap_cons_some hc, hzero]

theorem Selected.Numbers.isSome (h : sel.Numbers nums) :
    ∀ n ∈ nums, (sel.box.items[n - 1]?).isSome := by
  intro n hn
  have hbounds := h.2 n hn
  rw [isSome_getElem?]
  omega

theorem Selected.Numbers.newest (h : sel.Numbers nums) : sel.Numbers (newestFirst nums) :=
  ⟨newestFirst_perm.nodup_iff.2 h.1, fun n hn => h.2 n (newestFirst_perm.mem_iff.1 hn)⟩

theorem Selected.Numbers.pairwise (h : sel.Numbers nums) :
    (sel.summaries H (newestFirst nums)).Pairwise fun a b => b.uid < a.uid :=
  summaries_pairwise (newestFirst_pairwise h.1) fun n hn => (h.newest.2 n hn).1

theorem Selected.Numbers.length_le (h : sel.Numbers nums) : nums.length ≤ sel.box.items.length := by
  have hsub : nums ⊆ List.range' 1 sel.box.items.length := by
    intro n hn
    have hbounds := h.2 n hn
    rw [List.mem_range'_1]
    omega
  have hle := (h.1.subperm hsub).length_le
  rwa [List.length_range'] at hle

theorem Selected.Numbers.length_summaries (h : sel.Numbers nums) :
    (sel.summaries H nums).length = nums.length := by
  rw [Selected.summaries, List.length_map]
  exact List.filterMap_length_eq_length.2 h.isSome

/-- **A page** of the messages that are found. -/
theorem fetchMessageSummaries_eq {folder : String} {query : Bytes} {page limit : Int}
    (hne : sel.box.items.length ≠ 0) (hmatch : matchedSeqNums L sel query = .ok nums)
    (hpage : 1 ≤ page) (hpos : 0 ≤ limit) (hlt : limit < 2 ^ 62) :
    (fetchMessageSummaries L H sel folder page limit query).map (fun a => (a.totalPages, a.items)) =
      (cutAt (sel.summaries H (newestFirst nums)) (pageStart page limit) limit).map
        fun items => (totalPages (newestFirst nums).length limit, items) := by
  have hnums := (numbers_matchedSeqNums hmatch).newest
  have hlen : (newestFirst nums).length < 2 ^ 62 := by
    have hle := hnums.length_le
    have hlt := sel.length_lt
    omega
  have hcut : cutEarly (newestFirst nums) page limit =
      cutAt (newestFirst nums) (pageStart page limit) limit := cutEarly_eq hlen hpos hlt
  rw [fetchMessageSummaries, if_neg hne, hmatch]
  dsimp only
  rw [if_neg (by omega), hcut, cutAt, cutAt]
  by_cases hneg : pageStart page limit < 0
  · rw [if_pos hneg, if_pos hneg]
    rfl
  · rw [if_neg hneg, if_neg hneg]
    dsimp only
    have hwindow : sel.summaries H (((newestFirst nums).drop (pageStart page limit).toNat).take
          limit.toNat) = ((sel.summaries H (newestFirst nums)).drop (pageStart page limit).toNat).take
        limit.toNat := by
      rw [Selected.summaries, filterMap_window hnums.isSome, List.map_take, List.map_drop]
      rfl
    have hsub : (((newestFirst nums).drop (pageStart page limit).toNat).take limit.toNat).Sublist
        (newestFirst nums) := (List.take_sublist _ _).trans (List.drop_sublist _ _)
    have hsorted := (newestFirst_pairwise (numbers_matchedSeqNums hmatch).1).sublist hsub
    rw [← hwindow]
    generalize ((newestFirst nums).drop (pageStart page limit).toNat).take limit.toNat = cut at hsub hsorted
    split
    · rename_i hnil
      rw [hnil]
      rfl
    · rw [sortSummaries_fetch hsorted fun n hn => hnums.2 n (hsub.subset hn)]
      rfl

/-- `FetchMessageSummaries` is paged where the page number points to its page; an empty folder
answers every page number. -/
theorem paged_fetchMessageSummaries_iff (folder : String) {query : Bytes} (r : PageRequest)
    (hmatch : matchedSeqNums L sel query = .ok nums) :
    Paged (fun page limit => fetchMessageSummaries L H sel folder page limit query)
      (sel.summaries H (newestFirst nums)) r ↔ sel.box.items = [] ∨ Points r nums.length := by
  have hnums := (numbers_matchedSeqNums hmatch).newest
  have hlen := hnums.length_summaries (H := H)
  rw [newestFirst_perm.length_eq] at hlen
  have hle := (numbers_matchedSeqNums hmatch).length_le
  have hbox := sel.length_lt
  by_cases hne : sel.box.items = []
  · have hnil : sel.summaries H (newestFirst nums) = [] := by
      rw [← List.length_eq_zero_iff, hlen]
      rw [hne, List.length_nil] at hle
      omega
    rw [hnil]
    refine iff_of_true (paged_of_empty (a := ⟨folder, "", 0, r.page, r.limit, 0, []⟩) ?_ rfl rfl) (.inl hne)
    rw [fetchMessageSummaries, if_pos (by rw [hne]; rfl)]
  · rw [or_iff_right hne, ← hlen]
    refine CutFrom.paged_iff (fun page limit hpage hpos hlimit => ?_) (by omega)
    rw [fetchMessageSummaries_eq (fun h => hne (List.length_eq_zero_iff.1 h)) hmatch hpage
      (by omega) (by omega), hlen, newestFirst_perm.length_eq]

end Folder

/-- `FetchThreadList` is paged where the page number points to its page; an empty folder answers
every page number, and one that is too large none. -/
theorem paged_fetchThreadList_iff (folder : String) (numMessages : Nat)
    (threads : Slice ThreadSummary) (r : PageRequest) :
    Paged (fetchThreadList folder numMessages threads.elems)
      (if numMessages = 0 then [] else threads.elems) r ↔
        numMessages = 0 ∨ numMessages > threadIndexMaxMsgs ∨ Points r threads.elems.length := by
  by_cases hzero : numMessages = 0
  · rw [if_pos hzero]
    refine iff_of_true (paged_of_empty (a := ⟨folder, "threads", 0, r.page, r.limit, 0, []⟩) ?_ rfl rfl)
      (.inl hzero)
    rw [fetchThreadList, if_pos hzero]
  · rw [if_neg hzero, or_iff_right hzero]
    by_cases hlarge : numMessages > threadIndexMaxMsgs
    · refine iff_of_true (paged_of_error (e := "ThreadUnavailableError") ?_) (.inl hlarge)
      rw [fetchThreadList, if_neg hzero, if_pos hlarge]
    · rw [or_iff_right hlarge]
      refine CutFrom.paged_iff (fun page limit hpage hpos hle => ?_) threads.length_lt
      rw [fetchThreadList, if_neg hzero, if_neg hlarge]
      dsimp only
      rw [if_neg (by omega), cutClamped_eq threads.length_lt (by omega) (by omega)]
      cases cutAt threads.elems (pageStart page limit) limit <;> rfl

/-- Where the page number points to its page, the threads are those of the page as it was
counted in numbers without a bound. -/
theorem fetchThreadList_of_points {folder : String} {numMessages : Nat}
    {threads : Slice ThreadSummary} {r : PageRequest} (hzero : numMessages ≠ 0)
    (hlarge : numMessages ≤ threadIndexMaxMsgs) (h : (r.page - 1) * r.limit < 2 ^ 63) :
    (fetchThreadList folder numMessages threads.elems r.page r.limit).map Answer.items =
      .ok (Imap.fetchThreadList folder threads.elems r.page.toNat r.limit.toNat).threads := by
  obtain ⟨page, limit, hpage, hlt, hpos, hle⟩ := r
  obtain ⟨p, rfl⟩ : ∃ p : Nat, page = (p : Int) + 1 := ⟨(page - 1).toNat, by omega⟩
  obtain ⟨limit, rfl⟩ := Int.eq_ofNat_of_zero_le (show 0 ≤ limit by omega)
  have hstart : pageStart ((p : Int) + 1) limit = (p * limit : Nat) := by
    rw [pageStart_eq hpage hpos h, Int.add_sub_cancel, Int.natCast_mul]
  have hpage' : ((p : Int) + 1).toNat = p + 1 := by omega
  dsimp only
  rw [fetchThreadList, if_neg hzero, if_neg (Nat.not_lt.2 hlarge), hpage', Int.toNat_natCast,
    threads_fetchThreadList]
  dsimp only
  rw [if_neg (by omega), cutClamped_eq threads.length_lt (by omega) (by omega), hstart, cutAt,
    if_neg (by omega), Int.toNat_natCast, Int.toNat_natCast]
  rfl

/-! ## The unread messages -/

section Unread

variable {L : SearchLib} {H : Headers} {sel : Selected} {nums : List Nat}
variable {read : String → Except String Selected} {folders : List String}

/-- The messages of a folder that are not seen. -/
def Selected.unread (sel : Selected) : List (Nat × Message) :=
  sel.box.items.filter fun p => !p.2.flags.contains "\\Seen"

theorem parseSearchQuery_unread (hL : normalizeOpValue L (utf8 "unread") = utf8 "unread") :
    parseSearchQuery L (utf8 "is:unread") = { SearchQuery.empty with unread := true } := by
  have htokens : tokenizeSearch (utf8 "is:unread") = [⟨utf8 "is", utf8 "unread"⟩] := by
    decide +kernel
  -- none of the operators before `is` is meant
  have hop : (decide (utf8 "is" = []) || isWord (utf8 "is") ["text"]) = false ∧
      ∀ op ∈ ["from", "to", "cc", "bcc", "subject", "body"], isWord (utf8 "is") [op] = false := by
    decide
  have his : isWord (utf8 "is") ["is"] = true := by decide
  have hval : isWord (utf8 "unread") ["unread", "new"] = true := by decide
  simp only [List.forall_mem_cons] at hop
  obtain ⟨htext, hfrom, hto, hcc, hbcc, hsubject, hbody, -⟩ := hop
  simp only [parseSearchQuery, htokens, List.foldl_cons, List.foldl_nil, SearchQuery.add, htext,
    hfrom, hto, hcc, hbcc, hsubject, hbody, his, hL, hval, if_true, Bool.false_eq_true, if_false]

/-- The server is asked for what is not seen. -/
theorem matchedSeqNums_unread (hL : normalizeOpValue L (utf8 "unread") = utf8 "unread") :
    matchedSeqNums L sel (utf8 "is:unread") = (sel.search [.notFlag "\\Seen"]).mapError
      fun e => "search failed: " ++ e := by
  have hne : utf8 "is:unread" ≠ [] := by decide
  rw [matchedSeqNums, if_neg hne, parseSearchQuery_unread hL]
  have hcriteria : ({ SearchQuery.empty with unread := true } : SearchQuery).buildCriteria false =
      [.notFlag "\\Seen"] := by decide
  dsimp only
  rw [hcriteria]
  cases sel.search [.notFlag "\\Seen"] <;> rfl

/-- The unread messages of a folder that the list gets. -/
def unreadIn (H : Headers) (read : String → Except String Selected) (f : String) :
    List FolderSummary :=
  if trimSpace f = "" then []
  else
    match read f with
    | .error _ => []
    | .ok sel =>
      match sel.search [.notFlag "\\Seen"] with
      | .error _ => []
      | .ok nums => ((sel.summaries H (newestFirst nums)).take 10000).map fun s => ⟨f, s⟩

theorem unreadOf_eq (hL : normalizeOpValue L (utf8 "unread") = utf8 "unread") (f : String) :
    unreadOf L H read f = .ok (unreadIn H read f) := by
  rw [unreadOf, unreadIn]
  split
  · rfl
  · cases hread : read f with
    | error e => rfl
    | ok sel =>
      have hmatch : matchedSeqNums L sel (utf8 "is:unread") = _ := matchedSeqNums_unread hL
      dsimp only
      by_cases hzero : sel.box.items.length = 0
      · -- nothing is in the folder, and nothing is found
        rw [fetchMessageSummaries, if_pos hzero]
        cases hsearch : sel.search [.notFlag "\\Seen"] with
        | error e => rfl
        | ok nums =>
          have hnil : sel.summaries H (newestFirst nums) = [] := by
            have hnums : sel.Numbers nums := sel.found _ _ hsearch
            rw [← List.length_eq_zero_iff, hnums.newest.length_summaries,
              newestFirst_perm.length_eq]
            exact Nat.le_zero.1 (hzero ▸ hnums.length_le)
          dsimp only
          rw [hnil]
          rfl
      · cases hsearch : sel.search [.notFlag "\\Seen"] with
        | error e =>
          rw [hsearch] at hmatch
          rw [fetchMessageSummaries, if_neg hzero, hmatch]
          rfl
        | ok nums =>
          rw [hsearch] at hmatch
          have hpage : (fetchMessageSummaries L H sel f 1 bigLimit (utf8 "is:unread")).map
              (fun a => (a.totalPages, a.items)) = _ :=
            fetchMessageSummaries_eq hzero hmatch (Int.le_refl 1) (by decide) (by decide)
          have hstart : pageStart 1 bigLimit = 0 := by decide
          rw [hstart, cutAt, if_neg (by decide)] at hpage
          cases hfetch : fetchMessageSummaries L H sel f 1 bigLimit (utf8 "is:unread") with
          | error e =>
            rw [hfetch] at hpage
            cases hpage
          | ok res =>
            rw [hfetch] at hpage
            have hitems := congrArg Prod.snd (Except.ok.inj hpage)
            dsimp only at hitems ⊢
            rw [hitems]
            rfl

theorem folder_of_mem_unreadIn {f : String} {x : FolderSummary} (h : x ∈ unreadIn H read f) :
    x.folder = f := by
  rw [unreadIn] at h
  split at h
  · cases h
  · split at h
    · cases h
    · split at h
      · cases h
      · obtain ⟨s, -, rfl⟩ := List.mem_map.1 h
        rfl

theorem mem_unreadIn {f : String} {s : MessageSummary} (hread : read f = .ok sel)
    (hsearch : sel.search [.notFlag "\\Seen"] = .ok nums) :
    ⟨f, s⟩ ∈ unreadIn H read f ↔ trimSpace f ≠ "" ∧
      s ∈ (sel.summaries H (newestFirst nums)).take 10000 := by
  rw [unreadIn]
  by_cases hname : trimSpace f = ""
  · rw [if_pos hname]
    exact iff_of_false List.not_mem_nil fun h => h.1 hname
  · rw [if_neg hname, hread]
    dsimp only
    rw [hsearch]
    dsimp only
    rw [List.mem_map]
    constructor
    · rintro ⟨s', hs', heq⟩
      rw [FolderSummary.mk.injEq] at heq
      exact ⟨hname, heq.2 ▸ hs'⟩
    · exact fun ⟨_, hs⟩ => ⟨s, hs, rfl⟩

/-- What the list is made of. -/
theorem mem_allUnread (hL : normalizeOpValue L (utf8 "unread") = utf8 "unread")
    {all : List FolderSummary} (h : allUnread L H read folders = .ok all) {x : FolderSummary} :
    x ∈ all ↔ ∃ f ∈ folders, x ∈ unreadIn H read f := by
  rw [allUnread, mapM_ok fun f _ => unreadOf_eq hL f] at h
  obtain rfl : (folders.map (unreadIn H read)).flatten = all := Except.ok.inj h
  rw [List.mem_flatten]
  simp only [List.mem_map]
  exact ⟨fun ⟨_, ⟨f, hf, hl⟩, hx⟩ => ⟨f, hf, hl ▸ hx⟩, fun ⟨f, hf, hx⟩ => ⟨_, ⟨f, hf, rfl⟩, hx⟩⟩

/-- The messages that the server finds are the unread ones. -/
theorem mem_found (h : sel.search [.notFlag "\\Seen"] = .ok nums) {p : Nat × Message} :
    p ∈ (newestFirst nums).filterMap (fun n => sel.box.items[n - 1]?) ↔ p ∈ sel.unread := by
  rw [List.mem_filterMap, Selected.unread, List.mem_filter, Bool.not_eq_true']
  constructor
  · rintro ⟨n, hn, hp⟩
    have hn' := newestFirst_perm.mem_iff.1 hn
    have hpos := ((sel.found _ _ h).2 n hn').1
    refine ⟨List.mem_of_getElem? hp, (sel.unseen nums h _ p hp).1 ?_⟩
    rwa [Nat.sub_add_cancel hpos]
  · rintro ⟨hp, hseen⟩
    obtain ⟨i, hi⟩ := List.mem_iff_getElem?.1 hp
    exact ⟨i + 1, newestFirst_perm.mem_iff.2 ((sel.unseen nums h i p hi).2 hseen), hi⟩

/-- **Complete**: every unread message of a folder that can be read and searched is in the list. -/
def Complete (H : Headers) (read : String → Except String Selected) (folders : List String)
    (all : List FolderSummary) : Prop :=
  ∀ f ∈ folders, ∀ sel, read f = .ok sel → (∃ nums, sel.search [.notFlag "\\Seen"] = .ok nums) →
    ∀ p ∈ sel.unread, ⟨f, messageSummary H p⟩ ∈ all

/-- No folder has more unread messages than are asked for, and a folder with a blank name none. -/
def Few (read : String → Except String Selected) (folders : List String) : Prop :=
  ∀ f ∈ folders, ∀ sel, read f = .ok sel → (∃ nums, sel.search [.notFlag "\\Seen"] = .ok nums) →
    sel.unread = [] ∨ trimSpace f ≠ "" ∧ sel.unread.length ≤ 10000

/-- As many messages are found as are unread, each once. -/
theorem found_perm (h : sel.search [.notFlag "\\Seen"] = .ok nums) :
    ((newestFirst nums).filterMap fun n => sel.box.items[n - 1]?).Perm sel.unread := by
  have hnums : sel.Numbers nums := sel.found _ _ h
  have hstrict := hnums.pairwise (H := asciiHeaders)
  refine (List.perm_ext_iff_of_nodup ?_ ?_).2 fun p => mem_found h
  · rw [Selected.summaries, List.pairwise_map] at hstrict
    refine hstrict.imp fun hlt heq => ?_
    rw [heq] at hlt
    exact Nat.lt_irrefl _ hlt
  · refine List.Nodup.filter _ (sel.box.increasing.imp fun hlt heq => ?_)
    exact absurd (heq ▸ hlt) (Nat.lt_irrefl _)

/-- **All unread messages** are in the list just where each folder has few. -/
theorem complete_iff (hL : normalizeOpValue L (utf8 "unread") = utf8 "unread")
    {all : List FolderSummary} (h : allUnread L H read folders = .ok all) :
    Complete H read folders all ↔ Few read folders := by
  refine forall_congr' fun f => forall_congr' fun hf => forall_congr' fun sel => ?_
  refine forall_congr' fun hread => forall_congr' fun ⟨nums, hsearch⟩ => ?_
  have hnums : sel.Numbers nums := sel.found _ _ hsearch
  have hlen : (sel.summaries H (newestFirst nums)).length = sel.unread.length := by
    rw [Selected.summaries, List.length_map, (found_perm hsearch).length_eq]
  have hmem : ∀ p ∈ sel.unread, messageSummary H p ∈ sel.summaries H (newestFirst nums) :=
    fun p hp => List.mem_map_of_mem ((mem_found hsearch).2 hp)
  have hin : ∀ p, ⟨f, messageSummary H p⟩ ∈ all ↔ trimSpace f ≠ "" ∧
      messageSummary H p ∈ (sel.summaries H (newestFirst nums)).take 10000 := by
    intro p
    rw [mem_allUnread hL h]
    constructor
    · rintro ⟨f', -, hx⟩
      obtain rfl : f = f' := folder_of_mem_unreadIn hx
      exact (mem_unreadIn hread hsearch).1 hx
    · exact fun hx => ⟨f, hf, (mem_unreadIn hread hsearch).2 hx⟩
  constructor
  · intro hcomplete
    refine or_iff_not_imp_left.2 fun hne => ?_
    obtain ⟨p, hp⟩ := List.exists_mem_of_ne_nil _ hne
    refine ⟨((hin p).1 (hcomplete p hp)).1, ?_⟩
    by_contra hlarge
    -- the first message that is left out has a UID smaller than those in the list
    have hlt : 10000 < (sel.summaries H (newestFirst nums)).length := by omega
    have hdrop := List.mem_of_mem_head? (l := (sel.summaries H (newestFirst nums)).drop 10000)
      (by rw [List.head?_drop]; exact List.getElem?_eq_getElem hlt)
    obtain ⟨q, hq, hout⟩ := List.mem_map.1 (List.mem_of_mem_drop hdrop)
    have hin' := ((hin q).1 (hcomplete q ((mem_found hsearch).1 hq))).2
    have hstrict := hnums.pairwise (H := H)
    have hsplit := List.take_append_drop 10000 (sel.summaries H (newestFirst nums))
    rw [← hsplit, List.pairwise_append] at hstrict
    exact Nat.lt_irrefl _ (hstrict.2.2 _ (hout ▸ hin') _ hdrop)
  · rintro (hnil | ⟨hname, hfew⟩) p hp
    · rw [hnil] at hp
      cases hp
    · refine (hin p).2 ⟨hname, ?_⟩
      rw [List.take_of_length_le (by omega)]
      exact hmem p hp

variable {sort : List FolderSummary → List FolderSummary}

/-- `FetchAllUnread` is paged where the page number points to its page; where nothing is unread it
answers every page number. -/
theorem paged_fetchAllUnread_iff (hsort : ∀ l, (sort l).Perm l) (all : Slice FolderSummary)
    (hall : allUnread L H read folders = .ok all.elems) (r : PageRequest) :
    Paged (fetchAllUnread L H sort read folders) (sort all.elems) r ↔
      all.elems = [] ∨ Points r all.elems.length := by
  have hlen := (hsort all.elems).length_eq
  have hlt := all.length_lt
  by_cases hnil : all.elems = []
  · have hempty : sort all.elems = [] := by
      rw [← List.length_eq_zero_iff, hlen, hnil]
      rfl
    rw [hempty]
    refine iff_of_true (paged_of_empty
      (a := ⟨"unread", "messages", 0, r.page, r.limit, 0, []⟩) ?_ rfl rfl) (.inl hnil)
    rw [fetchAllUnread, hall]
    dsimp only
    rw [hempty]
    rfl
  · rw [or_iff_right hnil, ← hlen]
    refine CutFrom.paged_iff (fun page limit hpage hpos hle => ?_) (by omega)
    have hne : (sort all.elems).length ≠ 0 := by
      rw [hlen]
      exact fun h => hnil (List.length_eq_zero_iff.1 h)
    rw [fetchAllUnread, hall]
    dsimp only
    rw [if_neg hne, if_neg (by omega), cutClamped_eq (by omega) (by omega) (by omega)]
    cases cutAt (sort all.elems) (pageStart page limit) limit <;> rfl

end Unread

/-! ## The three lists -/

variable {L H}

/-- **The lists are paged** exactly where the page number points to its page, and the unread
messages are all there exactly where no folder has more of them than are asked for. -/
theorem paging_iff (hL : normalizeOpValue L (utf8 "unread") = utf8 "unread")
    (sel : Selected) (folder : String) (query : Bytes) (numMessages : Nat)
    (threads : Slice ThreadSummary) (read : String → Except String Selected)
    (folders : List String) (all : Slice FolderSummary)
    (hall : allUnread L H read folders = .ok all.elems)
    (sort : List FolderSummary → List FolderSummary)
    (hsort : ∀ l, Descending (fun x => x.summary.date) l (sort l)) (r : PageRequest) :
    (∀ nums, matchedSeqNums L sel query = .ok nums →
      (Paged (fun page limit => fetchMessageSummaries L H sel folder page limit query)
        (sel.summaries H (newestFirst nums)) r ↔ sel.box.items = [] ∨ Points r nums.length)) ∧
      (Paged (fetchThreadList folder numMessages threads.elems)
        (if numMessages = 0 then [] else threads.elems) r ↔
          numMessages = 0 ∨ numMessages > threadIndexMaxMsgs ∨ Points r threads.elems.length) ∧
      (Paged (fetchAllUnread L H sort read folders) (sort all.elems) r ∧
        Complete H read folders (sort all.elems) ↔
          (all.elems = [] ∨ Points r all.elems.length) ∧ Few read folders) := by
  have hperm : ∀ l, (sort l).Perm l := fun l => (hsort l).1
  have hcomplete : Complete H read folders (sort all.elems) ↔ Complete H read folders all.elems := by
    simp only [Complete, (hperm all.elems).mem_iff]
  refine ⟨fun nums hmatch => paged_fetchMessageSummaries_iff folder r hmatch,
    paged_fetchThreadList_iff folder numMessages threads r, ?_⟩
  rw [paged_fetchAllUnread_iff hperm all hall r, hcomplete, complete_iff hL hall]

/-- A folder with one unread message. -/
def oneUnread : Selected where
  box := ⟨[(1, ⟨[], ⟨"<a>", [], "hello", 0, [], ""⟩⟩)], 2, by decide, by decide, by decide, by decide⟩
  length_lt := by decide
  search _ := .ok [1]
  found cs nums h := by
    cases h
    decide
  unseen nums h i p hp := by
    cases h
    obtain ⟨hi, rfl⟩ := List.getElem?_eq_some_iff.1 hp
    obtain rfl : i = 0 := Nat.lt_one_iff.1 hi
    exact iff_of_true List.mem_cons_self rfl
  fetch nums :=
    if 1 ∈ nums then [(1, ⟨[], ⟨"<a>", [], "hello", 0, [], ""⟩⟩)] else []
  fetched nums := by
    by_cases h : 1 ∈ nums <;> simp [h]

/-- A sort by the date. -/
def byDate (l : List FolderSummary) : List FolderSummary :=
  l.mergeSort fun a b => decide (b.summary.date ≤ a.summary.date)

/-- The second page, with the default limit. -/
def secondPage : PageRequest := ⟨2, 50, by decide, by decide, by decide, by decide⟩

/-- The list of its unread messages. -/
def oneUnreadList : Slice FolderSummary :=
  ⟨unreadIn asciiHeaders (fun _ => .ok oneUnread) "INBOX", by decide +kernel⟩

theorem secondPage_paged :
    (∀ nums, matchedSeqNums asciiSearch oneUnread [] = .ok nums →
      (Paged (fun page limit =>
          fetchMessageSummaries asciiSearch asciiHeaders oneUnread "INBOX" page limit [])
        (oneUnread.summaries asciiHeaders (newestFirst nums)) secondPage ↔
          oneUnread.box.items = [] ∨ Points secondPage nums.length)) ∧
      (Paged (fetchThreadList "INBOX" 1 []) [] secondPage ↔
        1 = 0 ∨ 1 > threadIndexMaxMsgs ∨ Points secondPage 0) ∧
      (Paged (fetchAllUnread asciiSearch asciiHeaders byDate (fun _ => .ok oneUnread) ["INBOX"])
          (byDate oneUnreadList.elems) secondPage ∧
        Complete asciiHeaders (fun _ => .ok oneUnread) ["INBOX"] (byDate oneUnreadList.elems) ↔
          (oneUnreadList.elems = [] ∨ Points secondPage oneUnreadList.elems.length) ∧
            Few (fun _ => .ok oneUnread) ["INBOX"]) := by
  have hL : normalizeOpValue asciiSearch (utf8 "unread") = utf8 "unread" := by decide +kernel
  have hall : allUnread asciiSearch asciiHeaders (fun _ => .ok oneUnread) ["INBOX"] =
      .ok oneUnreadList.elems := by
    rw [allUnread, mapM_ok fun f _ => unreadOf_eq hL f]
    exact congrArg _ (List.append_nil _)
  have hsort : ∀ l, Descending (fun x => x.summary.date) l (byDate l) := fun l =>
    ⟨List.mergeSort_perm _ _, pairwise_mergeSort_le (fun x => x.summary.date) l⟩
  exact paging_iff hL oneUnread "INBOX" [] 1 ⟨[], by decide⟩ (fun _ => .ok oneUnread) ["INBOX"]
    oneUnreadList hall byDate hsort secondPage

/-- A page number so large that the first item has a negative place. -/
def hugePage : PageRequest := ⟨2 ^ 62 + 1, 50, by decide, by decide, by decide, by decide⟩

/-- The search has found no thread, and the request for a page of them is out of range. -/
theorem hugePage_outOfRange :
    ¬ ∀ (threads : Slice ThreadSummary) (r : PageRequest),
      Paged (fetchThreadList "INBOX" 1 threads.elems) threads.elems r := by
  intro h
  exact (h ⟨[], by decide⟩ hugePage).inRange rfl

end E2Mail.Imap.Pages
