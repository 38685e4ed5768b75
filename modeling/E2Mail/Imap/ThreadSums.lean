import E2Mail.Imap.ThreadList
import E2Mail.Lib.Grouping
import E2Mail.Lib.Decimal

/-!
# The threads and their nodes

What the list of threads says of all the nodes of an index together.

* `InThread` — a node is a member of a thread.
* `Threaded` — every node is in one thread, the counts add up, and no two threads have the same id.
* `threaded_iff` — when this is so, for every index.
-/

namespace E2Mail.Imap

open Lib

variable (H : Headers) (idx : ThreadIndex)

/-- A node is a member of a thread. -/
def InThread (n : ThreadNode) (t : ThreadSummary) : Prop :=
  ∃ g ∈ buildThreadGroups H idx, n ∈ g.2 ∧ assembleThread H g.2 = some t

/-- **Threaded.** -/
structure Threaded : Prop where
  member : ∀ n ∈ idx.nodes.rows, ∃! t, t ∈ threadsOf H idx ∧ InThread H idx n t
  messages : ((threadsOf H idx).map ThreadSummary.messageCount).sum = idx.nodes.rows.length
  unread : ((threadsOf H idx).map ThreadSummary.unreadCount).sum =
    idx.nodes.rows.countP fun n => n.summary.unread
  ids : ((threadsOf H idx).map ThreadSummary.threadID).Nodup

/-- The newest member of a thread. -/
def newest (members : List ThreadNode) : Option ThreadNode :=
  members.head?.map fun first => newestOf first members.tail

/-- The newest members of different threads have different Message-IDs, as far as they have any. -/
def NewestApart : Prop :=
  ∀ g ∈ buildThreadGroups H idx, ∀ g' ∈ buildThreadGroups H idx, g ≠ g' →
    ∀ n ∈ newest g.2, ∀ n' ∈ newest g'.2, n.msgID ≠ "" → n.msgID ≠ n'.msgID

variable {H idx}

/-! ## Members -/

theorem buildThreadGroups_eq : buildThreadGroups H idx =
    (keys (fun n => rootOf H idx n.uid) idx.nodes.rows).map fun root =>
      (root, sortByUID (group (fun n => rootOf H idx n.uid) idx.nodes.rows root)) := rfl

theorem eq_of_mem_groups {g g' : Nat × List ThreadNode} {n : ThreadNode}
    (hg : g ∈ buildThreadGroups H idx) (hg' : g' ∈ buildThreadGroups H idx) (hn : n ∈ g.2)
    (hn' : n ∈ g'.2) : g = g' := by
  have hroot : g.1 = g'.1 := by
    rw [← ((mem_members hg).1 hn).2, ← ((mem_members hg').1 hn').2]
  have hmembers := (mem_buildThreadGroups.1 hg).2
  rw [hroot, ← (mem_buildThreadGroups.1 hg').2] at hmembers
  exact Prod.ext hroot hmembers

theorem assembleThread_eq {members : List ThreadNode} {t : ThreadSummary}
    (h : assembleThread H members = some t) :
    t.messageCount = members.length ∧ t.unreadCount = members.countP fun n => n.summary.unread := by
  cases members with
  | nil => cases h
  | cons first rest =>
    cases h
    exact ⟨rfl, rfl⟩

theorem assembleThread_isSome {members : List ThreadNode} (h : members ≠ []) :
    ∃ t, assembleThread H members = some t := by
  obtain ⟨first, rest, rfl⟩ := List.exists_cons_of_ne_nil h
  exact ⟨_, rfl⟩

theorem mem_threadsOf {t : ThreadSummary} :
    t ∈ threadsOf H idx ↔ ∃ g ∈ buildThreadGroups H idx, assembleThread H g.2 = some t :=
  List.mem_filterMap

/-- No thread is without members. -/
theorem members_ne_nil {g : Nat × List ThreadNode} (hg : g ∈ buildThreadGroups H idx) :
    g.2 ≠ [] := by
  obtain ⟨⟨n, hn, hroot⟩, -⟩ := mem_buildThreadGroups.1 hg
  exact List.ne_nil_of_mem ((mem_members hg).2 ⟨hn, hroot⟩)

theorem existsUnique_thread {n : ThreadNode} (hn : n ∈ idx.nodes.rows) :
    ∃! t, t ∈ threadsOf H idx ∧ InThread H idx n t := by
  obtain ⟨root, ⟨hroot, hmem⟩, -⟩ : ∃! root,
      root ∈ keys (fun n : ThreadNode => rootOf H idx n.uid) idx.nodes.rows ∧
        n ∈ group (fun n : ThreadNode => rootOf H idx n.uid) idx.nodes.rows root :=
    existsUnique_group hn
  have hg := List.mem_map_of_mem (f := fun root => (root, sortByUID
    (group (fun n : ThreadNode => rootOf H idx n.uid) idx.nodes.rows root))) hroot
  rw [← buildThreadGroups_eq] at hg
  have hmember := mem_sortByUID.2 hmem
  obtain ⟨t, ht⟩ := assembleThread_isSome (H := H) (List.ne_nil_of_mem hmember)
  refine ⟨t, ⟨mem_threadsOf.2 ⟨_, hg, ht⟩, _, hg, hmember, ht⟩, ?_⟩
  rintro t' ⟨-, g', hg', hmember', ht'⟩
  rw [eq_of_mem_groups hg' hg hmember' hmember, ht] at ht'
  exact (Option.some.inj ht').symm

/-! ## Counts -/

/-- What every thread counts of its members adds up. -/
theorem sum_threads {f : ThreadSummary → Nat} {p : ThreadNode → Bool}
    (hf : ∀ members t, assembleThread H members = some t → f t = members.countP p) :
    ((threadsOf H idx).map f).sum = idx.nodes.rows.countP p := by
  have hgroups : (threadsOf H idx).map f = (buildThreadGroups H idx).map fun g => g.2.countP p := by
    have hne : ∀ g ∈ buildThreadGroups H idx, g.2 ≠ [] := fun g => members_ne_nil
    rw [threadsOf, assembleThreads]
    generalize buildThreadGroups H idx = groups at hne ⊢
    induction groups with
    | nil => rfl
    | cons g groups ih =>
      obtain ⟨t, ht⟩ := assembleThread_isSome (H := H) (hne g List.mem_cons_self)
      simp only [List.filterMap_cons, ht, List.map_cons]
      rw [hf _ _ ht, ih fun g' hg' => hne g' (List.mem_cons_of_mem _ hg')]
  have hsorted : ∀ root, (sortByUID (group (fun n : ThreadNode => rootOf H idx n.uid)
      idx.nodes.rows root)).countP p =
      (group (fun n : ThreadNode => rootOf H idx n.uid) idx.nodes.rows root).countP p :=
    fun root => (List.perm_insertionSort _ _).countP_eq p
  rw [hgroups, buildThreadGroups_eq, List.map_map]
  simp only [Function.comp_def, hsorted]
  exact sum_countP_groups p (List.nodup_dedup _) fun n hn => mem_keys.2 ⟨n, hn, rfl⟩

/-! ## Ids -/

theorem newestOf_mem (first : ThreadNode) (rest : List ThreadNode) :
    newestOf first rest ∈ first :: rest := by
  rw [newestOf]
  refine List.foldlRecOn (motive := fun n => n ∈ first :: rest) rest _ List.mem_cons_self
    fun n hn m hm => ?_
  split
  · exact List.mem_cons_of_mem _ hm
  · exact hn

theorem newest_mem {members : List ThreadNode} {n : ThreadNode} (h : n ∈ newest members) :
    n ∈ members := by
  cases members with
  | nil => cases h
  | cons first rest =>
    cases h
    exact newestOf_mem first rest

/-- The id of a thread with this newest member. -/
def idOf (n : ThreadNode) : String :=
  if n.msgID = "" then "uid:" ++ toString n.uid else "<" ++ n.msgID ++ ">"

/-- Two threads have different ids. -/
def IDsApart (g g' : Nat × List ThreadNode) : Prop :=
  ∀ n ∈ newest g.2, ∀ n' ∈ newest g'.2, idOf n ≠ idOf n'

instance : Std.Symm IDsApart := ⟨fun _ _ h n hn n' hn' => (h n' hn' n hn).symm⟩

theorem threadID_eq (members : List ThreadNode) :
    (assembleThread H members).map ThreadSummary.threadID = (newest members).map idOf := by
  cases members with
  | nil => rfl
  | cons first rest => rfl

/-- An id without a Message-ID is that of one node, and one with a Message-ID has no other. -/
theorem idOf_eq_iff {n n' : ThreadNode} :
    idOf n = idOf n' ↔ if n.msgID = "" then n'.msgID = "" ∧ n.uid = n'.uid
      else n.msgID = n'.msgID := by
  have hangle : ∀ a b : String, "<" ++ a ++ ">" = "<" ++ b ++ ">" ↔ a = b := by
    intro a b
    refine ⟨fun h => ?_, fun h => h ▸ rfl⟩
    rw [← String.toList_inj] at h ⊢
    simpa using h
  have huid : ∀ a b : Nat, "uid:" ++ toString a = "uid:" ++ toString b ↔ a = b := by
    refine fun a b => ⟨fun h => ?_, fun h => h ▸ rfl⟩
    have hdigits : Nat.toDigits 10 a = Nat.toDigits 10 b := by
      rw [← String.toList_inj] at h
      simpa [Nat.repr] using h
    exact decimal_injective (by rw [decimal, decimal, hdigits])
  have hapart : ∀ (a : String) (b : Nat), "<" ++ a ++ ">" ≠ "uid:" ++ toString b := by
    intro a b h
    rw [← String.toList_inj] at h
    simp at h
  by_cases hn : n.msgID = "" <;> by_cases hn' : n'.msgID = ""
  · rw [idOf, idOf, if_pos hn, if_pos hn', if_pos hn, huid]
    simp [hn']
  · rw [idOf, idOf, if_pos hn, if_neg hn', if_pos hn]
    exact iff_of_false (hapart _ _).symm fun h => hn' h.1
  · rw [idOf, idOf, if_neg hn, if_pos hn', if_neg hn]
    exact iff_of_false (hapart _ _) fun h => hn (h.trans hn')
  · rw [idOf, idOf, if_neg hn, if_neg hn', if_neg hn, hangle]

/-- Different threads have different newest members. -/
theorem newest_uid_ne {g g' : Nat × List ThreadNode} {n n' : ThreadNode}
    (hg : g ∈ buildThreadGroups H idx) (hg' : g' ∈ buildThreadGroups H idx) (hne : g ≠ g')
    (hn : n ∈ newest g.2) (hn' : n' ∈ newest g'.2) : n.uid ≠ n'.uid := by
  intro huid
  have hmem := newest_mem hn
  have hmem' := newest_mem hn'
  have hsame := eq_of_uid_node ((mem_members hg).1 hmem).1 ((mem_members hg').1 hmem').1 huid
  exact hne (eq_of_mem_groups hg hg' hmem (hsame ▸ hmem'))

theorem threadIDs_nodup_iff :
    ((threadsOf H idx).map ThreadSummary.threadID).Nodup ↔ NewestApart H idx := by
  have hgroups : (buildThreadGroups H idx).Nodup :=
    pairwise_buildThreadGroups.imp fun hne heq => hne (congrArg Prod.fst heq)
  have hids : ((threadsOf H idx).map ThreadSummary.threadID).Nodup ↔
      (buildThreadGroups H idx).Pairwise IDsApart := by
    rw [threadsOf, assembleThreads, List.map_filterMap]
    simp only [threadID_eq]
    rw [List.Nodup, List.pairwise_filterMap]
    simp only [Option.map_eq_some_iff, forall_exists_index, and_imp, forall_apply_eq_imp_iff₂]
    rfl
  rw [hids]
  constructor
  · intro h g hg g' hg' hne n hn n' hn' hid heq
    exact h.forall hg hg' hne n hn n' hn' (idOf_eq_iff.2 (by rwa [if_neg hid]))
  · intro h
    refine hgroups.pairwise_of_forall_ne fun g hg g' hg' hne n hn n' hn' heq => ?_
    rw [idOf_eq_iff] at heq
    split at heq
    · exact newest_uid_ne hg hg' hne hn hn' heq.2
    next hid => exact h g hg g' hg' hne n hn n' hn' hid heq

/-- **Threaded.** Every node is in one thread and the counts add up; the ids are different just if
no two threads have newest messages with one Message-ID. -/
theorem threaded_iff (H : Headers) (idx : ThreadIndex) : Threaded H idx ↔ NewestApart H idx := by
  constructor
  · exact fun h => threadIDs_nodup_iff.1 h.ids
  · intro h
    refine ⟨fun n => existsUnique_thread, ?_, ?_, threadIDs_nodup_iff.2 h⟩
    · have hall : ∀ l : List ThreadNode, l.countP (fun _ => true) = l.length := fun l => by
        rw [List.countP_true]
      rw [← hall]
      exact sum_threads fun members t ht => by rw [(assembleThread_eq ht).1, hall]
    · exact sum_threads fun members t ht => (assembleThread_eq ht).2

/-- The index of a folder with two messages that have one Message-ID. -/
def sameID : ThreadIndex where
  uidValidity := 1
  uidNext := 3
  count := 2
  builtAt := 0
  nodes := fetchThreadNodes asciiHeaders Table.empty
    ⟨[(1, ⟨[], ⟨"<a>", [], "one", 5, [], ""⟩⟩), (2, ⟨[], ⟨"<a>", [], "two", 6, [], ""⟩⟩)], none⟩

theorem sameID_not_threaded : ¬∀ (H : Headers) (idx : ThreadIndex), Threaded H idx := by
  intro h
  have hids := (h asciiHeaders sameID).ids
  exact absurd hids (by decide +kernel)

end E2Mail.Imap
