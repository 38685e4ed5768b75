import E2Mail.Imap.ThreadIndex
import Mathlib.Data.List.Perm.Subperm

/-!
# Refreshing the thread index

Before a folder is listed by threads its index is brought up to date: kept as it is,
extended, or built anew, as the numbers in the answer to SELECT suggest.

* `refreshThreadIndexLocked` — the choice, and what is done;
* `Event`, `Run` — a folder that changes between refreshes;
* `Snapshot` — the invariant: what the index knows of the folder as it was when the
  index was last brought up to date;
* `refreshed_uids` — an index that is refreshed has the UIDs of the folder, if no
  message of it was expunged where it is extended;
* `expunged_kept` — a run in which one was.
-/

namespace E2Mail.Imap

open Lib

/-- `imap.SelectData`. -/
structure SelectData where
  /-- `UIDValidity` -/
  uidValidity : Nat
  /-- `UIDNext` -/
  uidNext : Nat
  /-- `NumMessages` -/
  numMessages : Nat

/-- `threadIndexTTL`, in seconds. -/
def threadIndexTTL : Nat := 60

/-- What a refresh decides to do. -/
inductive Reason
  | build
  | rebuild
  | incremental
  | reuse
  deriving DecidableEq, Repr

/-- The decision of `refreshThreadIndexLocked`. -/
def refreshReason (now : Nat) (sel : SelectData) (total : Nat) : Option ThreadIndex → Reason
  | none => .build
  | some idx =>
    if idx.uidValidity ≠ sel.uidValidity then .rebuild
    else if idx.count ≠ total then .rebuild -- expunge/move
    else if sel.uidNext > idx.uidNext then .incremental
    else if now - idx.builtAt > threadIndexTTL then .rebuild
    else .reuse

section Refresh

variable (H : Headers) (now : Nat) (sel : SelectData) (total : Nat)

/-- An index built from a FETCH of the whole folder. -/
def buildIndex (r : FetchReply) : ThreadIndex :=
  { uidValidity := sel.uidValidity
    uidNext := sel.uidNext
    count := total
    builtAt := now
    nodes := fetchThreadNodes H Table.empty r }

/-- Builds the index anew; if the FETCH fails, the entry stays as it was. -/
def rebuildIndex (entry : Option ThreadIndex) (r : FetchReply) :
    Except String ThreadIndex × Option ThreadIndex :=
  match r.err with
  | some e => (.error e, entry)
  | none => (.ok (buildIndex H now sel total r), some (buildIndex H now sel total r))

/-- `refreshThreadIndexLocked`, the replies to its first FETCH and to that of the
rebuild that follows when the first was incremental and failed: the index, and the
entry afterwards. -/
def refreshThreadIndexLocked (entry : Option ThreadIndex) (r₁ r₂ : FetchReply) :
    Except String ThreadIndex × Option ThreadIndex :=
  match refreshReason now sel total entry, entry with
  | .incremental, some idx =>
    -- the messages that came in before an error have been merged all the same
    let idx := { idx with nodes := fetchThreadNodes H idx.nodes r₁ }
    match r₁.err with
    | some _ => rebuildIndex H now sel total (some idx) r₂
    | none =>
      let idx := { idx with uidNext := sel.uidNext, count := total, builtAt := now }
      (.ok idx, some idx)
  | .reuse, some idx => (.ok idx, entry)
  | _, _ => rebuildIndex H now sel total entry r₁

end Refresh

/-! ## A folder and its index -/

/-- A folder on the server, and the entry of the store that holds its index. -/
structure Indexed where
  /-- the messages -/
  box : Mailbox
  /-- UIDVALIDITY, which does not change -/
  uidValidity : Nat
  /-- the clock -/
  now : Nat
  /-- `entry.index` -/
  entry : Option ThreadIndex

/-- What happens to it. -/
inductive Event
  /-- messages arrive -/
  | arrive (ms : List Message)
  /-- messages are expunged -/
  | expunge (which : Nat × Message → Bool)
  /-- time passes -/
  | tick (seconds : Nat)
  /-- a refresh, and the replies to its FETCHes -/
  | refresh (r₁ r₂ : FetchReply)

namespace Indexed

variable (H : Headers)

/-- The answer to SELECT. -/
def selectData (s : Indexed) : SelectData :=
  ⟨s.uidValidity, s.box.next, s.box.items.length⟩

/-- A refresh, with the answer that SELECT gives. -/
def refresh (s : Indexed) (r₁ r₂ : FetchReply) : Except String ThreadIndex × Option ThreadIndex :=
  refreshThreadIndexLocked H s.now s.selectData s.box.items.length s.entry r₁ r₂

/-- The next state. -/
def next (s : Indexed) : Event → Indexed
  | .arrive ms => { s with box := s.box.add ms }
  | .expunge which => { s with box := s.box.keep fun p => !which p }
  | .tick d => { s with now := s.now + d }
  | .refresh r₁ r₂ => { s with entry := (s.refresh H r₁ r₂).2 }

/-- What a refresh would do. -/
def reason (s : Indexed) : Reason :=
  refreshReason s.now s.selectData s.box.items.length s.entry

/-- The messages the first FETCH of a refresh asks for. -/
def asked (s : Indexed) : List (Nat × Message) :=
  match s.reason, s.entry with
  | .incremental, some idx => fetchSet idx.nodes idx.uidNext s.box
  | _, _ => s.box.items

/-- The server tells the truth. -/
def Truthful (s : Indexed) : Event → Prop
  | .refresh r₁ r₂ => r₁.Truthful s.asked ∧ r₂.Truthful s.box.items
  | _ => True

/-- **The condition.** Where the index is extended, all of its messages are still
there. -/
def Current (s : Indexed) : Event → Prop
  | .refresh r₁ _ => s.reason = .incremental → r₁.err = none →
      ∀ idx, s.entry = some idx → ∀ uid ∈ idx.nodes.uids, uid ∈ s.box.numbers
  | _ => True

end Indexed

/-- The states of a run from a folder that has no index yet, in which the server
tells the truth and every step meets a condition. -/
inductive Run (H : Headers) (C : Indexed → Event → Prop) : Indexed → Prop
  | start (box : Mailbox) (uidValidity now : Nat) : Run H C ⟨box, uidValidity, now, none⟩
  | step {s : Indexed} {e : Event} : Run H C s → s.Truthful e → C s e → Run H C (s.next H e)

/-! ## The invariant -/

/-- **The invariant**: what an index knows of its folder, where `base` are the UIDs the
folder had when the index was last brought up to date. A FETCH that failed may have
left nodes of newer messages in the index. -/
structure Snapshot (base : List Nat) (idx : ThreadIndex) (box : Mailbox) : Prop where
  /-- a UID is there once -/
  nodup : base.Nodup
  /-- the index knows how many there were -/
  count : base.length = idx.count
  /-- and up to which UID -/
  below : ∀ uid ∈ base, uid < idx.uidNext
  /-- what is in the folder below that UID was there then -/
  old : ∀ uid ∈ box.numbers, uid < idx.uidNext → uid ∈ base
  /-- what was there then has a node -/
  held : ∀ uid ∈ base, uid ∈ idx.nodes.uids
  /-- other nodes are of messages that came later -/
  newer : ∀ uid ∈ idx.nodes.uids, uid ∈ base ∨ idx.uidNext ≤ uid
  /-- UIDNEXT only grows -/
  next : idx.uidNext ≤ box.next
  /-- no node is of a message that has not come yet -/
  given : ∀ uid ∈ idx.nodes.uids, uid < box.next

section Steps

variable {H : Headers} {s : Indexed} {idx : ThreadIndex} {base : List Nat} {box : Mailbox}

/-- Messages that arrive have UIDs the index has not heard of. -/
theorem Snapshot.arrive (h : Snapshot base idx box) (ms : List Message) :
    Snapshot base idx (box.add ms) where
  nodup := h.nodup
  count := h.count
  below := h.below
  old := by
    intro uid huid hlt
    rcases Numbered.mem_numbers_add huid with hmem | hle
    · exact h.old uid hmem hlt
    · have hnext := h.next
      omega
  held := h.held
  newer := h.newer
  next := by
    have hnext := h.next
    rw [Numbered.next_add]
    omega
  given := by
    intro uid huid
    have hlt := h.given uid huid
    rw [Numbered.next_add]
    omega

theorem Snapshot.expunge (h : Snapshot base idx box) (p : Nat × Message → Bool) :
    Snapshot base idx (box.keep p) :=
  { h with old := fun uid huid hlt => h.old uid (Numbered.mem_numbers_keep huid) hlt }

/-- An index with the UIDs of the folder, its UIDNEXT and its count. -/
theorem Snapshot.fresh (hnext : idx.uidNext = box.next) (hcount : idx.count = box.items.length)
    (huids : ∀ uid, uid ∈ idx.nodes.uids ↔ uid ∈ box.numbers) :
    Snapshot box.numbers idx box where
  nodup := box.nodup_numbers
  count := by rw [hcount, Numbered.numbers, List.length_map]
  below := by
    intro uid huid
    rw [hnext]
    exact Numbered.number_lt_next huid
  old := fun _ huid _ => huid
  held := fun uid huid => (huids uid).mpr huid
  newer := fun uid huid => .inl ((huids uid).mp huid)
  next := Nat.le_of_eq hnext
  given := fun uid huid => Numbered.number_lt_next ((huids uid).mp huid)

/-- **Build.** A FETCH of the whole folder gives its UIDs. -/
theorem uids_buildIndex (H : Headers) (now total : Nat) (sel : SelectData) {r : FetchReply}
    (hr : r.Truthful box.items) (hok : r.err = none) (uid : Nat) :
    uid ∈ (buildIndex H now sel total r).nodes.uids ↔ uid ∈ box.numbers := by
  rw [buildIndex, mem_uids_fetchThreadNodes, Numbered.mem_numbers]
  have hempty : uid ∉ Nodes.uids (Table.empty : Nodes) := by simp [Nodes.uids, Table.empty]
  refine ⟨?_, ?_⟩
  · rintro (h | ⟨-, p, hp, rfl⟩)
    · exact absurd h hempty
    · exact ⟨p, hr.1 p hp, rfl⟩
  · rintro ⟨p, hp, rfl⟩
    exact .inr ⟨Nat.ne_of_gt (box.positive p hp), p, hr.2 hok p hp, rfl⟩

theorem mem_box_of_mem_fetchSet {nodes : Nodes} {fromUID : Nat} {p : Nat × Message}
    (h : p ∈ fetchSet nodes fromUID box) : p ∈ box.items := by
  rw [fetchSet] at h
  split at h
  · exact h
  · split at h
    · cases h
    · exact List.mem_of_mem_filter h

/-- The messages from a UID on are among those that a FETCH from there asks for. -/
theorem mem_fetchSet_of_le (nodes : Nodes) {fromUID : Nat} {p : Nat × Message}
    (hp : p ∈ box.items) (hle : fromUID ≤ p.1) : p ∈ fetchSet nodes fromUID box := by
  rw [fetchSet]
  split
  · exact hp
  · cases hlast : box.items.getLast? with
    | none =>
      rw [List.getLast?_eq_none_iff] at hlast
      rw [hlast] at hp
      cases hp
    | some last =>
      refine List.mem_filter.mpr ⟨hp, ?_⟩
      have hle' : p.1 ≤ last.1 := by
        obtain ⟨rest, hrest⟩ := List.getLast?_eq_some_iff.mp hlast
        have hinc := box.increasing
        rw [hrest] at hp hinc
        rcases List.mem_append.mp hp with hp | hp
        · exact Nat.le_of_lt ((List.pairwise_append.mp hinc).2.2 p hp last List.mem_cons_self)
        · exact Nat.le_of_eq (by rw [List.mem_singleton.mp hp])
      simp only [Bool.and_eq_true, decide_eq_true_eq]
      omega

/-- The index keeps its invariant when messages of the folder are merged into it. -/
theorem Snapshot.merge {r : FetchReply} (h : Snapshot base idx box)
    (hr : r.Truthful (fetchSet idx.nodes idx.uidNext box)) :
    Snapshot base { idx with nodes := fetchThreadNodes H idx.nodes r } box where
  nodup := h.nodup
  count := h.count
  below := h.below
  old := h.old
  held := fun uid huid => mem_uids_fetchThreadNodes.mpr (.inl (h.held uid huid))
  newer := by
    intro uid huid
    rcases mem_uids_fetchThreadNodes.mp huid with huid | ⟨-, p, hp, rfl⟩
    · exact h.newer uid huid
    · by_cases hlt : p.1 < idx.uidNext
      · have hbox := mem_box_of_mem_fetchSet (hr.1 p hp)
        exact .inl (h.old p.1 (Numbered.mem_numbers.mpr ⟨p, hbox, rfl⟩) hlt)
      · exact .inr (Nat.le_of_not_lt hlt)
  next := h.next
  given := by
    intro uid huid
    rcases mem_uids_fetchThreadNodes.mp huid with huid | ⟨-, p, hp, rfl⟩
    · exact h.given uid huid
    · exact box.below p (mem_box_of_mem_fetchSet (hr.1 p hp))

/-- **Extend.** If all messages of the index are still there, a FETCH of the new ones
makes its UIDs those of the folder. -/
theorem uids_extend {r : FetchReply} (h : Snapshot base idx box)
    (hr : r.Truthful (fetchSet idx.nodes idx.uidNext box)) (hok : r.err = none)
    (hthere : ∀ uid ∈ idx.nodes.uids, uid ∈ box.numbers) (uid : Nat) :
    uid ∈ (fetchThreadNodes H idx.nodes r).uids ↔ uid ∈ box.numbers := by
  rw [mem_uids_fetchThreadNodes]
  refine ⟨?_, fun huid => ?_⟩
  · rintro (huid | ⟨-, p, hp, rfl⟩)
    · exact hthere uid huid
    · exact Numbered.mem_numbers.mpr ⟨p, mem_box_of_mem_fetchSet (hr.1 p hp), rfl⟩
  · by_cases hlt : uid < idx.uidNext
    · exact .inl (h.held uid (h.old uid huid hlt))
    · obtain ⟨p, hp, rfl⟩ := Numbered.mem_numbers.mp huid
      have hask := mem_fetchSet_of_le idx.nodes hp (Nat.le_of_not_lt hlt)
      exact .inr ⟨Nat.ne_of_gt (box.positive p hp), p, hr.2 hok p hask, rfl⟩

/-- **Reuse.** If the count is what it was and no UID has been given since, the folder
is what it was. -/
theorem uids_reuse (h : Snapshot base idx box) (hcount : idx.count = box.items.length)
    (hnext : box.next ≤ idx.uidNext) (uid : Nat) :
    uid ∈ idx.nodes.uids ↔ uid ∈ box.numbers := by
  have hsub : box.numbers ⊆ base := fun u hu =>
    h.old u hu (Nat.lt_of_lt_of_le (Numbered.number_lt_next hu) hnext)
  have hlen : base.length ≤ box.numbers.length :=
    Nat.le_of_eq (by rw [h.count, hcount, Numbered.numbers, List.length_map])
  have hperm : box.numbers.Perm base :=
    (List.subperm_of_subset box.nodup_numbers hsub).perm_of_length_le hlen
  refine ⟨fun huid => ?_, fun huid => h.held uid (hsub huid)⟩
  rcases h.newer uid huid with hbase | hle
  · exact hperm.mem_iff.mpr hbase
  · have hlt := h.given uid huid
    omega

end Steps

/-! ## Runs -/

/-- The entry of the store has been brought up to date at some time. -/
def Indexed.Known (s : Indexed) : Prop :=
  ∀ idx, s.entry = some idx → ∃ base, Snapshot base idx s.box

section Runs

variable {H : Headers} {s : Indexed} {r₁ r₂ : FetchReply}

/-- A rebuild either fails, and leaves the entry, or gives an index that has the UIDs of
the folder. -/
theorem rebuildIndex_cases (entry : Option ThreadIndex) {r : FetchReply}
    (hr : r.Truthful s.box.items) :
    (∃ e, rebuildIndex H s.now s.selectData s.box.items.length entry r = (.error e, entry)) ∨
    ∃ idx, rebuildIndex H s.now s.selectData s.box.items.length entry r = (.ok idx, some idx) ∧
      Snapshot s.box.numbers idx s.box ∧ ∀ uid, uid ∈ idx.nodes.uids ↔ uid ∈ s.box.numbers := by
  rw [rebuildIndex]
  cases herr : r.err with
  | some e => exact .inl ⟨e, rfl⟩
  | none =>
    have huids := uids_buildIndex H s.now s.box.items.length s.selectData hr herr
    exact .inr ⟨_, rfl, .fresh rfl rfl huids, huids⟩

/-- **One refresh**: it fails, and what the entry holds is a snapshot still, or it gives
an index with the UIDs of the folder, which the entry then holds. -/
theorem refresh_cases (h : s.Known) (ht : s.Truthful (.refresh r₁ r₂))
    (hc : s.Current (.refresh r₁ r₂)) :
    (∃ e, (s.refresh H r₁ r₂).1 = .error e ∧
      ∀ idx, (s.refresh H r₁ r₂).2 = some idx → ∃ base, Snapshot base idx s.box) ∨
    ∃ idx base, s.refresh H r₁ r₂ = (.ok idx, some idx) ∧ Snapshot base idx s.box ∧
      ∀ uid, uid ∈ idx.nodes.uids ↔ uid ∈ s.box.numbers := by
  have hrebuild : ∀ entry r, r.Truthful s.box.items →
      (∀ idx, entry = some idx → ∃ base, Snapshot base idx s.box) →
      s.refresh H r₁ r₂ = rebuildIndex H s.now s.selectData s.box.items.length entry r →
      (∃ e, (s.refresh H r₁ r₂).1 = .error e ∧
        ∀ idx, (s.refresh H r₁ r₂).2 = some idx → ∃ base, Snapshot base idx s.box) ∨
      ∃ idx base, s.refresh H r₁ r₂ = (.ok idx, some idx) ∧ Snapshot base idx s.box ∧
        ∀ uid, uid ∈ idx.nodes.uids ↔ uid ∈ s.box.numbers := by
    intro entry r hr hentry heq
    rw [heq]
    rcases rebuildIndex_cases (H := H) entry hr with ⟨e, he⟩ | ⟨idx, hidx, hsnap, huids⟩
    · rw [he]
      exact .inl ⟨e, rfl, hentry⟩
    · exact .inr ⟨idx, _, hidx, hsnap, huids⟩
  obtain ⟨ht₁, ht₂⟩ := ht
  cases hentry : s.entry with
  | none =>
    have hasked : s.asked = s.box.items := by
      simp only [Indexed.asked, Indexed.reason, hentry, refreshReason]
    rw [hasked] at ht₁
    refine hrebuild none r₁ ht₁ nofun ?_
    simp only [Indexed.refresh, refreshThreadIndexLocked, hentry, refreshReason]
  | some idx =>
    obtain ⟨base, hsnap⟩ := h idx hentry
    cases hreason : s.reason with
    | incremental =>
      have hasked : s.asked = fetchSet idx.nodes idx.uidNext s.box := by
        simp only [Indexed.asked, hreason, hentry]
      rw [hasked] at ht₁
      have hreason' := hreason
      rw [Indexed.reason, hentry] at hreason'
      cases herr : r₁.err with
      | some e =>
        refine hrebuild (some { idx with nodes := fetchThreadNodes H idx.nodes r₁ }) r₂ ht₂ ?_ ?_
        · rintro _ ⟨⟩
          exact ⟨base, hsnap.merge ht₁⟩
        · simp only [Indexed.refresh, refreshThreadIndexLocked, hentry, hreason', herr]
      | none =>
        have huids := uids_extend (H := H) hsnap ht₁ herr (hc hreason herr idx hentry)
        refine .inr ⟨{ idx with
          nodes := fetchThreadNodes H idx.nodes r₁
          uidNext := s.selectData.uidNext
          count := s.box.items.length
          builtAt := s.now }, s.box.numbers, ?_, .fresh rfl rfl huids, huids⟩
        simp only [Indexed.refresh, refreshThreadIndexLocked, hentry, hreason', herr]
    | reuse =>
      have hreason' := hreason
      rw [Indexed.reason, hentry] at hreason'
      refine .inr ⟨idx, base, ?_, hsnap, ?_⟩
      · simp only [Indexed.refresh, refreshThreadIndexLocked, hentry, hreason']
      · simp only [refreshReason] at hreason'
        by_cases hval : idx.uidValidity ≠ s.selectData.uidValidity
        · simp [hval] at hreason'
        · by_cases hcount : idx.count ≠ s.box.items.length
          · simp [hval, hcount] at hreason'
          · by_cases hnext : s.selectData.uidNext > idx.uidNext
            · simp [hval, hcount, hnext] at hreason'
            · exact uids_reuse hsnap (not_not.mp hcount) (Nat.le_of_not_lt hnext)
    | build | rebuild =>
      have hasked : s.asked = s.box.items := by
        simp only [Indexed.asked, hreason]
      rw [hasked] at ht₁
      rw [Indexed.reason, hentry] at hreason
      refine hrebuild (some idx) r₁ ht₁ ?_ ?_
      · rintro _ ⟨⟩
        exact ⟨base, hsnap⟩
      · simp only [Indexed.refresh, refreshThreadIndexLocked, hentry, hreason]

/-- A step keeps what is known of the entry. -/
theorem known_next {e : Event} (h : s.Known) (ht : s.Truthful e) (hc : s.Current e) :
    (s.next H e).Known := by
  intro idx hidx
  cases e with
  | arrive ms =>
    obtain ⟨base, hsnap⟩ := h idx hidx
    exact ⟨base, hsnap.arrive ms⟩
  | expunge which =>
    obtain ⟨base, hsnap⟩ := h idx hidx
    exact ⟨base, hsnap.expunge _⟩
  | tick d => exact h idx hidx
  | refresh r₁ r₂ =>
    have hidx : (s.refresh H r₁ r₂).2 = some idx := hidx
    rcases refresh_cases (H := H) h ht hc with ⟨e, -, hkeep⟩ | ⟨idx', base, heq, hsnap, -⟩
    · exact hkeep idx hidx
    · rw [heq] at hidx
      cases hidx
      exact ⟨base, hsnap⟩

theorem known_of_run (h : Run H Indexed.Current s) : s.Known := by
  induction h with
  | start => exact nofun
  | step _ ht hc ih => exact known_next ih ht hc

end Runs

/-- **Refreshed.** In a run whose refreshes meet the condition, each refresh that succeeds
gives an index with exactly the UIDs of the folder, whichever way it went about it. -/
theorem refreshed_uids {H : Headers} {s : Indexed} (hrun : Run H Indexed.Current s)
    {r₁ r₂ : FetchReply} (ht : s.Truthful (.refresh r₁ r₂)) (hc : s.Current (.refresh r₁ r₂))
    {idx : ThreadIndex} (hok : (s.refresh H r₁ r₂).1 = .ok idx) (uid : Nat) :
    uid ∈ idx.nodes.uids ↔ uid ∈ s.box.numbers := by
  rcases refresh_cases (H := H) (known_of_run hrun) ht hc with ⟨e, he, -⟩ | ⟨_, _, heq, -, huids⟩
  · rw [he] at hok
    cases hok
  · rw [heq] at hok
    cases hok
    exact huids uid

/-! ## Two runs -/

/-- A message without headers. -/
def bareMessage : Message := ⟨[], ⟨"", [], "", 0, [], ""⟩⟩

/-- A folder with three messages. -/
def threeMessages : Indexed := ⟨Numbered.empty.add [bareMessage, bareMessage, bareMessage], 1, 0, none⟩

/-- The reply to a FETCH of some messages, by UID. -/
def fetched (uids : List Nat) : FetchReply := ⟨uids.map fun uid => (uid, bareMessage), none⟩

/-- The FETCH is not needed. -/
def notFetched : FetchReply := ⟨[], some "connection closed"⟩

/-- The index of the three messages, one that came after them and has gone again. -/
def cameAndWent : Indexed :=
  ((threeMessages.next asciiHeaders (.refresh (fetched [1, 2, 3]) notFetched)).next asciiHeaders
    (.arrive [bareMessage])).next asciiHeaders (.expunge fun p => p.1 == 4)

/-- The index of the three messages, the first of which is gone while another has come. -/
def oneForAnother : Indexed :=
  ((threeMessages.next asciiHeaders (.refresh (fetched [1, 2, 3]) notFetched)).next asciiHeaders
    (.expunge fun p => p.1 == 1)).next asciiHeaders (.arrive [bareMessage])

/-- An index that is extended, for the message that came and went. -/
theorem refreshed_uids_cameAndWent :
    cameAndWent.reason = .incremental ∧
    ∃ idx, (cameAndWent.refresh asciiHeaders (fetched [3]) notFetched).1 = .ok idx ∧
      ∀ uid, uid ∈ idx.nodes.uids ↔ uid ∈ cameAndWent.box.numbers := by
  have hrun : Run asciiHeaders Indexed.Current cameAndWent :=
    .step (.step (.step (.start _ _ _) ⟨by decide +kernel, by decide +kernel⟩ nofun)
      trivial trivial) trivial trivial
  have hok : (cameAndWent.refresh asciiHeaders (fetched [3]) notFetched).1.isOk = true := by
    decide +kernel
  have hentry : ∀ uid ∈ (cameAndWent.entry.map fun idx => idx.nodes.uids).getD [],
      uid ∈ cameAndWent.box.numbers := by decide +kernel
  refine ⟨by decide +kernel, ?_⟩
  cases hres : (cameAndWent.refresh asciiHeaders (fetched [3]) notFetched).1 with
  | error e =>
    rw [hres] at hok
    cases hok
  | ok idx =>
    refine ⟨idx, rfl, refreshed_uids hrun ⟨by decide +kernel, by decide +kernel⟩ ?_ hres⟩
    intro _ _ idx' hidx' uid huid
    rw [hidx'] at hentry
    exact hentry uid huid

/-- **Expunged, and kept.** The count is the same, UIDNEXT has grown, and the index keeps
the first message. -/
theorem expunged_kept :
    ¬ ∀ s, Run asciiHeaders (fun _ _ => True) s → ∀ r₁ r₂, s.Truthful (.refresh r₁ r₂) →
      ∀ idx, (s.refresh asciiHeaders r₁ r₂).1 = .ok idx →
        ∀ uid, uid ∈ idx.nodes.uids ↔ uid ∈ s.box.numbers := by
  intro h
  have hrun : Run asciiHeaders (fun _ _ => True) oneForAnother :=
    .step (.step (.step (.start _ _ _) ⟨by decide +kernel, by decide +kernel⟩ trivial)
      trivial trivial) trivial trivial
  have huids : ((oneForAnother.refresh asciiHeaders (fetched [4]) notFetched).1.toOption.map
      fun idx => idx.nodes.uids) = some [1, 2, 3, 4] := by decide +kernel
  cases hres : (oneForAnother.refresh asciiHeaders (fetched [4]) notFetched).1 with
  | error e =>
    rw [hres] at huids
    cases huids
  | ok idx =>
    have hmem := h _ hrun _ _ ⟨by decide +kernel, by decide +kernel⟩ idx hres 1
    rw [hres] at huids
    have hidx : idx.nodes.uids = [1, 2, 3, 4] := Option.some.inj huids
    rw [hidx] at hmem
    exact absurd (hmem.mp (by decide)) (by decide +kernel)

end E2Mail.Imap
