import E2Mail.Imap.ThreadGroups
import E2Mail.Lib.Paging

/-!
# The list of threads

A folder listed by threads is shown page by page, the thread with the newest message
first. Each page comes from a request of its own, which groups the index again and
sorts the threads again.

* `assembleThread` — what the list says of a thread; its messages, up to twenty;
* `ThreadOrder` — the orders in which a request can have the threads;
* `fetchThreadList` — a page;
* `threadPages_perm_iff` — when the pages together hold every thread once;
* `thread_twice` — pages that hold one thread twice.
-/

namespace E2Mail.Imap

open Lib

/-! ## Threads -/

/-- `ThreadSummary`. -/
structure ThreadSummary where
  /-- `ThreadID` -/
  threadID : String
  /-- `Subject` -/
  subject : String
  /-- `Date`, of the newest message -/
  date : Nat
  /-- `Senders` -/
  senders : List String
  /-- `MessageCount` -/
  messageCount : Nat
  /-- `UnreadCount` -/
  unreadCount : Nat
  /-- `Starred` -/
  starred : Bool
  /-- `HasAttachment` -/
  hasAttachment : Bool
  /-- `Messages`, twenty at most -/
  messages : List MessageSummary
  deriving DecidableEq, Repr

/-- `threadMaxMembers`. -/
def threadMaxMembers : Nat := 20

/-- The newest of the members, the first of them if there are several. -/
def newestOf (first : ThreadNode) (rest : List ThreadNode) : ThreadNode :=
  rest.foldl (fun newest m => if newest.date < m.date then m else newest) first

/-- The addresses of the senders, each once, whatever its case. -/
def sendersOf (H : Headers) (members : List ThreadNode) : List String :=
  ((members.flatMap fun m => m.summary.senders).foldl
    (fun (st : List String × List String) fe =>
      if fe.address = "" ∨ H.toLower fe.address ∈ st.2 then st
      else (st.1 ++ [fe.address], H.toLower fe.address :: st.2)) ([], [])).1

/-- One round of `assembleThreads`. There are no threads without members. -/
def assembleThread (H : Headers) : List ThreadNode → Option ThreadSummary
  | [] => none
  | first :: rest =>
    let members := first :: rest
    let newest := newestOf first rest
    let threadID :=
      if newest.msgID = "" then "uid:" ++ toString newest.uid else "<" ++ newest.msgID ++ ">"
    some
      { threadID := threadID
        subject := newest.subject
        date := newest.date
        senders := sendersOf H members
        messageCount := members.length
        unreadCount := members.countP fun m => m.summary.unread
        starred := members.any fun m => m.summary.starred
        hasAttachment := members.any fun m => m.summary.hasAttachment
        messages :=
          (members.take threadMaxMembers).map fun m => { m.summary with threadID := threadID } }

/-- `assembleThreads`, in the order of the groups. -/
def assembleThreads (H : Headers) (groups : List (Nat × List ThreadNode)) : List ThreadSummary :=
  groups.filterMap fun g => assembleThread H g.2

/-- The threads of an index. -/
def threadsOf (H : Headers) (idx : ThreadIndex) : List ThreadSummary :=
  assembleThreads H (buildThreadGroups H idx)

/-- The orders that a request can have the threads in: the groups come out of a map in any
order, and `sort.Slice` puts the newest first and those of one date in any order. -/
def ThreadOrder (H : Headers) (idx : ThreadIndex) (threads : List ThreadSummary) : Prop :=
  Descending ThreadSummary.date (threadsOf H idx) threads

/-! ## Pages -/

/-- `ThreadListResult`. -/
structure ThreadListResult where
  /-- `Folder` -/
  folder : String
  /-- `Mode` -/
  mode : String
  /-- `Total`, the number of threads -/
  total : Nat
  /-- `Page` -/
  page : Nat
  /-- `Limit` -/
  limit : Nat
  /-- `TotalPages` -/
  totalPages : Nat
  /-- `Threads` -/
  threads : List ThreadSummary

/-- The end of `FetchThreadList`: a page of the threads as they are sorted. -/
def fetchThreadList (folder : String) (threads : List ThreadSummary) (page limit : Nat) :
    ThreadListResult :=
  let totalThreads := threads.length
  let page := if page < 1 then 1 else page
  let start := min ((page - 1) * limit) totalThreads
  let stop := min (start + limit) totalThreads
  { folder := folder
    mode := "threads"
    total := totalThreads
    page := page
    limit := limit
    totalPages := (totalThreads + limit - 1) / limit
    threads := (threads.drop start).take (stop - start) }

/-- The threads of the pages from the first to the last, each from a request of its own. -/
def threadPages (folder : String) (H : Headers) (idx : ThreadIndex) (limit : Nat)
    (orders : Nat → List ThreadSummary) : List ThreadSummary :=
  (List.range ((threadsOf H idx).length + limit - 1 |>.div limit)).flatMap fun p =>
    (fetchThreadList folder (orders p) (p + 1) limit).threads

section Pages

variable {H : Headers} {idx : ThreadIndex} {limit : Nat}

/-- A page is a slice of the threads. -/
theorem threads_fetchThreadList (folder : String) (threads : List ThreadSummary) (p : Nat) :
    (fetchThreadList folder threads (p + 1) limit).threads = page limit p threads := by
  have hpage : ¬p + 1 < 1 := by omega
  simp only [fetchThreadList, if_neg hpage, Nat.add_sub_cancel, page]
  by_cases hle : p * limit ≤ threads.length
  · rw [Nat.min_eq_left hle]
    by_cases hstop : p * limit + limit ≤ threads.length
    · rw [Nat.min_eq_left hstop, Nat.add_sub_cancel_left]
    · rw [Nat.min_eq_right (by omega), List.take_of_length_le (by rw [List.length_drop]),
        List.take_of_length_le (by rw [List.length_drop]; omega)]
  · have hstart : min (p * limit) threads.length = threads.length := Nat.min_eq_right (by omega)
    rw [hstart, List.drop_length, List.drop_eq_nil_of_le (by omega), List.take_nil, List.take_nil]

theorem threadPages_eq (folder : String) (orders : Nat → List ThreadSummary) :
    threadPages folder H idx limit orders = pages limit (threadsOf H idx) orders := by
  rw [threadPages, pages, pageCount]
  refine congrArg (fun f => List.flatMap f _) (funext fun p => ?_)
  exact threads_fetchThreadList folder (orders p) p

/-- The first message of a thread is the first of its members. -/
theorem head_assembleThread {members : List ThreadNode} {t : ThreadSummary}
    (h : assembleThread H members = some t) :
    ∃ first rest, members = first :: rest ∧
      t.messages.head?.map MessageSummary.uid = some first.uid := by
  cases members with
  | nil => cases h
  | cons first rest =>
    rw [assembleThread, Option.some.injEq] at h
    subst h
    exact ⟨first, rest, rfl, congrArg some first.summary_uid⟩

/-- No two threads have the same root. -/
theorem pairwise_buildThreadGroups : (buildThreadGroups H idx).Pairwise fun g g' => g.1 ≠ g'.1 := by
  rw [buildThreadGroups, List.pairwise_map]
  exact List.nodup_dedup _

/-- Nodes of an index with the same UID are the same. -/
theorem eq_of_uid_node {n n' : ThreadNode} (hn : n ∈ idx.nodes.rows) (hn' : n' ∈ idx.nodes.rows)
    (h : n.uid = n'.uid) : n = n' := Table.eq_of_key hn hn' h

/-- The threads are different from each other. -/
theorem nodup_threadsOf : (threadsOf H idx).Nodup := by
  have hroots : (buildThreadGroups H idx).Pairwise fun g g' => g.1 ≠ g'.1 :=
    pairwise_buildThreadGroups
  have hgroups := hroots.imp_of_mem
    (S := fun g g' => g ∈ buildThreadGroups H idx ∧ g' ∈ buildThreadGroups H idx ∧ g.1 ≠ g'.1)
    fun hg hg' hne => ⟨hg, hg', hne⟩
  refine List.Pairwise.filterMap _ (fun g g' h t ht t' ht' heq => ?_) hgroups
  obtain ⟨hg, hg', hne⟩ := h
  subst heq
  obtain ⟨n, rest, hmembers, huid⟩ := head_assembleThread ht
  obtain ⟨n', rest', hmembers', huid'⟩ := head_assembleThread ht'
  have hn := (mem_members hg).mp (hmembers ▸ List.mem_cons_self)
  have hn' := (mem_members hg').mp (hmembers' ▸ List.mem_cons_self)
  rw [huid] at huid'
  have hsame : n.uid = n'.uid := Option.some.inj huid'
  exact hne (by rw [← hn.2, ← hn'.2, hsame])

/-- **Pages.** The pages, each from its own request, together hold every thread once in every
case just if no page ends between two threads of the same date. -/
theorem threadPages_perm_iff (folder : String) (hlimit : 0 < limit) :
    (∀ orders : Nat → List ThreadSummary, (∀ p, ThreadOrder H idx (orders p)) →
      (threadPages folder H idx limit orders).Perm (threadsOf H idx)) ↔
    Unsplit ThreadSummary.date limit (threadsOf H idx) := by
  simp only [threadPages_eq]
  exact pages_perm_iff nodup_threadsOf hlimit

end Pages

/-! ## Two threads of one date -/

/-- The index of a folder with two messages of the same date. -/
def sameDate : ThreadIndex where
  uidValidity := 1
  uidNext := 3
  count := 2
  builtAt := 0
  nodes := fetchThreadNodes asciiHeaders Table.empty
    ⟨[(1, ⟨[], ⟨"<a>", [], "one", 5, [], ""⟩⟩), (2, ⟨[], ⟨"<b>", [], "two", 5, [], ""⟩⟩)], none⟩

/-- Both on one page. -/
theorem threadPages_perm_iff_sameDate :
    Unsplit ThreadSummary.date 50 (threadsOf asciiHeaders sameDate) ∧
    ∀ orders : Nat → List ThreadSummary, (∀ p, ThreadOrder asciiHeaders sameDate (orders p)) →
      (threadPages "INBOX" asciiHeaders sameDate 50 orders).Perm
        (threadsOf asciiHeaders sameDate) := by
  have hunsplit : Unsplit ThreadSummary.date 50 (threadsOf asciiHeaders sameDate) := by
    intro t ht k
    have hlen : (threadsOf asciiHeaders sameDate).length = 2 := by decide +kernel
    have hle : atLeast ThreadSummary.date (threadsOf asciiHeaders sameDate) t ≤ 2 :=
      hlen ▸ List.countP_le_length
    omega
  exact ⟨hunsplit, (threadPages_perm_iff "INBOX" (by decide)).mpr hunsplit⟩

/-- **A thread twice.** With one thread to a page, each of the two requests may have the same
thread first. -/
theorem thread_twice :
    ¬ ∀ orders : Nat → List ThreadSummary, (∀ p, ThreadOrder asciiHeaders sameDate (orders p)) →
      (threadPages "INBOX" asciiHeaders sameDate 1 orders).Perm (threadsOf asciiHeaders sameDate) := by
  intro h
  have hswap : ThreadOrder asciiHeaders sameDate (threadsOf asciiHeaders sameDate).reverse :=
    ⟨List.reverse_perm _, by decide +kernel⟩
  have hself : ThreadOrder asciiHeaders sameDate (threadsOf asciiHeaders sameDate) :=
    ⟨List.Perm.refl _, by decide +kernel⟩
  have hperm := h (fun p => if p = 0 then threadsOf asciiHeaders sameDate
    else (threadsOf asciiHeaders sameDate).reverse) fun p => by
      by_cases hp : p = 0
      · simpa [hp] using hself
      · simpa [hp] using hswap
  have hnd := hperm.nodup_iff.mpr nodup_threadsOf
  exact absurd hnd (by decide +kernel)

end E2Mail.Imap
