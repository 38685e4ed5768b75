import E2Mail.Imap.ThreadIndex
import E2Mail.Lib.UnionFind
import Mathlib.Data.List.Sort

/-!
# Grouping messages to threads

The nodes of an index are grouped to threads by the messages they refer to and, where
they refer to none that is there, by their subject.

* `subjectKey` — a subject without the marks of replies;
* `groupThreads` — the grouping, by union-find;
* `Partition` — the grouping as an equivalence that grows, with no forest;
* `same_groupThreads` — the first computes the second;
* `buildThreadGroups` — the threads of an index;
* `replies_grouped_iff` — when a reply is in the thread of the message it replies to.
-/

namespace E2Mail.Imap

open Lib

/-! ## Subjects -/

/-- `\s` in a regular expression. -/
def isRegexpSpace (c : Char) : Bool := c == ' ' || c == '\t' || c == '\n' || c == '\r' || c == '\x0c'

/-- `\[[^\]]*\]` and what comes after. -/
def bracketed : List Char → Option (List Char)
  | '[' :: s =>
    match s.dropWhile (· != ']') with
    | _ :: rest => some rest
    | [] => none
  | _ => none

/-- `\([\d]+\)` and what comes after. -/
def numbered : List Char → Option (List Char)
  | '(' :: s =>
    match s.takeWhile Char.isDigit, s.dropWhile Char.isDigit with
    | _ :: _, ')' :: rest => some rest
    | _, _ => none
  | _ => none

/-- `reBracketTag`: what comes after a tag in brackets. -/
def bracketTag (s : List Char) : Option (List Char) :=
  (bracketed (s.dropWhile isRegexpSpace)).map (·.dropWhile isRegexpSpace)

/-- A letter of the pattern, in either case; the text is in lower case, but for the long s. -/
def sameLetter (p c : Char) : Bool := p == c || (p == 's' && c == 'ſ')

/-- A word of the pattern, and what comes after. -/
def word : List Char → List Char → Option (List Char)
  | [], s => some s
  | p :: w, c :: s => if sameLetter p c then word w s else none
  | _ :: _, [] => none

/-- The words that mark a reply. -/
def replyWords : List String := ["re", "fw", "fwd", "答复", "回复", "轉寄", "转发", "antw", "aw", "was"]

/-- `reSubjectPrefix`: what comes after the mark of a reply. -/
def subjectPrefix (s : List Char) : Option (List Char) :=
  replyWords.findSome? fun w => do
    let s ← word w.toList (s.dropWhile isRegexpSpace)
    let s := s.dropWhile isRegexpSpace
    let s := ((bracketed s).or (numbered s)).getD s
    match s.dropWhile isRegexpSpace with
    | c :: rest => if c == ':' || c == '：' then some (rest.dropWhile isRegexpSpace) else none
    | [] => none

/-- Takes a tag and a mark off. -/
def stripSubject (s : List Char) : List Char :=
  let s := ((bracketTag s).map (Text.trimBy isSpace)).getD s
  ((subjectPrefix s).map (Text.trimBy isSpace)).getD s

/-- Takes tags and marks off, `n` times at most. -/
def stripSubjects : Nat → List Char → List Char
  | 0, s => s
  | n + 1, s =>
    let s' := stripSubject s
    if s' = s then s else stripSubjects n s'

/-- `subjectKey`. -/
def subjectKey (H : Headers) (s : String) : String :=
  let s := trimSpace (H.toLower s)
  if s = "" ∨ s = "(no subject)" ∨ s = "no subject" then ""
  else String.ofList (stripSubjects 10 s.toList)

/-! ## The grouping -/

/-- `ThreadInput`. -/
structure ThreadInput where
  /-- `UID` -/
  uid : Nat
  /-- `MessageID` -/
  messageID : String
  /-- `References` -/
  references : List String
  /-- `InReplyTo` -/
  inReplyTo : String
  /-- `Subject` -/
  subject : String
  deriving DecidableEq, Repr

/-- `byMsgID`: the first message with the id. -/
def byMsgID (inputs : List ThreadInput) (id : String) : Option Nat :=
  (inputs.find? fun i => i.messageID != "" && i.messageID == id).map ThreadInput.uid

/-- The message that a candidate stands for, unless it is the message itself or is not
there. -/
def parentOf (H : Headers) (inputs : List ThreadInput) (inp : ThreadInput) (cand : String) :
    Option Nat :=
  let candID := normalizeMsgID H cand
  if candID = "" ∨ candID = inp.messageID then none
  else (byMsgID inputs candID).filter fun pUID => pUID != inp.uid

/-- The parents that a message may get, in the order they are tried: the references from
the last on, then In-Reply-To. -/
def parents (H : Headers) (inputs : List ThreadInput) (inp : ThreadInput) : List Nat :=
  (inp.references.reverse ++ if inp.inReplyTo = "" then [] else [inp.inReplyTo]).filterMap
    (parentOf H inputs inp)

/-- The state of the grouping: the forest, and `subjectAnchored`. -/
structure Grouping where
  /-- the trees are the threads -/
  forest : Forest
  /-- the message has a parent -/
  anchored : Nat → Bool

/-- Joins a message to the first of its parents that is in another tree. -/
def linkFirst (uid : Nat) : List Nat → Forest → Bool × Forest
  | [], u => (false, u)
  | pUID :: rest, u =>
    let rp := u.find pUID
    let rx := rp.2.find uid
    -- a parent in the same tree would make a cycle
    if rp.1 = rx.1 then linkFirst uid rest rx.2
    else (true, rx.2.union pUID uid)

/-- Pass 1: the chains of references. -/
def byReferences (H : Headers) (inputs : List ThreadInput) (g : Grouping) (inp : ThreadInput) :
    Grouping :=
  let r := linkFirst inp.uid (parents H inputs inp) g.forest
  ⟨r.2, Function.update g.anchored inp.uid r.1⟩

/-- Pass 2: by subject, to the first message with the subject; the anchors so far are part
of the state. -/
def bySubject (H : Headers) (st : (String → Option Nat) × Grouping) (inp : ThreadInput) :
    (String → Option Nat) × Grouping :=
  if inp.messageID ≠ "" ∧ st.2.anchored inp.uid = true then st
  else
    let key := subjectKey H inp.subject
    if key = "" then st
    else
      match st.1 key with
      | some anchor =>
        let ra := st.2.forest.find anchor
        let rx := ra.2.find inp.uid
        if ra.1 = rx.1 then (st.1, ⟨rx.2, st.2.anchored⟩)
        else (st.1, ⟨rx.2.union anchor inp.uid, Function.update st.2.anchored inp.uid true⟩)
      | none => (Function.update st.1 key (some inp.uid), st.2)

/-- The roots of some numbers, looked up one after the other. -/
def roots : List Nat → Forest → List (Nat × Nat)
  | [], _ => []
  | id :: ids, u =>
    let r := u.find id
    (id, r.1) :: roots ids r.2

/-- The grouping after both passes. -/
def grouping (H : Headers) (inputs : List ThreadInput) : Grouping :=
  (inputs.foldl (bySubject H)
    (fun _ => none, inputs.foldl (byReferences H inputs) ⟨Forest.discrete, fun _ => false⟩)).2

/-- `GroupThreads`: the root of the thread of each message. -/
def groupThreads (H : Headers) (inputs : List ThreadInput) : List (Nat × Nat) :=
  roots (inputs.map ThreadInput.uid) (grouping H inputs).forest

/-! ## Threads of an index -/

/-- The input that `buildThreadGroups` makes of a node. In-Reply-To is not part of it. -/
def threadInput (n : ThreadNode) : ThreadInput where
  uid := n.uid
  messageID := n.msgID
  references := n.refs
  inReplyTo := ""
  subject := n.subject

/-- `rootOf[uid]`. -/
def rootOf (H : Headers) (idx : ThreadIndex) (uid : Nat) : Nat :=
  ((groupThreads H (idx.nodes.rows.map threadInput)).lookup uid).getD 0

/-- The newest message first, which is the one with the largest UID. -/
def sortByUID (members : List ThreadNode) : List ThreadNode :=
  members.insertionSort fun a b => b.uid ≤ a.uid

/-- `buildThreadGroups`: the members of each thread under its root. The map has no order;
here the roots are in the order of the index. -/
def buildThreadGroups (H : Headers) (idx : ThreadIndex) : List (Nat × List ThreadNode) :=
  (idx.nodes.rows.map fun n => rootOf H idx n.uid).dedup.map fun root =>
    (root, sortByUID (idx.nodes.rows.filter fun n => rootOf H idx n.uid == root))

/-! ## The grouping without a forest -/

/-- An equivalence between messages, and the messages that have a parent. -/
structure Partition where
  /-- in one thread -/
  rel : Nat → Nat → Prop
  /-- the message has a parent -/
  anchored : Nat → Bool

open Classical in
/-- The first of the parents that a message is not related to yet. -/
noncomputable def firstApart (rel : Nat → Nat → Prop) (uid : Nat) (ps : List Nat) : Option Nat :=
  ps.find? fun p => decide (¬rel p uid)

/-- Relates a message to the first of its parents it is not related to yet. -/
noncomputable def Partition.link (P : Partition) (uid : Nat) (ps : List Nat) : Partition :=
  match firstApart P.rel uid ps with
  | some p => ⟨joinRel P.rel p uid, Function.update P.anchored uid true⟩
  | none => ⟨P.rel, Function.update P.anchored uid false⟩

open Classical in
/-- Relates a message to the first one with its subject. -/
noncomputable def Partition.attach (P : Partition) (anchor uid : Nat) : Partition :=
  if P.rel anchor uid then P
  else ⟨joinRel P.rel anchor uid, Function.update P.anchored uid true⟩

/-- Relates a message by its subject, unless it has a parent. -/
noncomputable def Partition.subject (H : Headers) (st : (String → Option Nat) × Partition)
    (inp : ThreadInput) : (String → Option Nat) × Partition :=
  if inp.messageID ≠ "" ∧ st.2.anchored inp.uid = true then st
  else
    let key := subjectKey H inp.subject
    if key = "" then st
    else
      match st.1 key with
      | some anchor => (st.1, st.2.attach anchor inp.uid)
      | none => (Function.update st.1 key (some inp.uid), st.2)

/-- Messages one after the other: by references first, then by subject. -/
noncomputable def partition (H : Headers) (inputs : List ThreadInput) : Partition :=
  (inputs.foldl (Partition.subject H)
    (fun _ => none, inputs.foldl (fun P inp => P.link inp.uid (parents H inputs inp))
      ⟨fun x y => x = y, fun _ => false⟩)).2

/-- **Joined**: the messages are in one thread by their references and subjects. -/
def Joined (H : Headers) (inputs : List ThreadInput) (x y : Nat) : Prop :=
  (partition H inputs).rel x y

/-! ## The forest computes the partition -/

/-- The partition into the trees of a forest. -/
def Grouping.toPartition (g : Grouping) : Partition := ⟨g.forest.Same, g.anchored⟩

section Refinement

variable {H : Headers}

theorem firstApart_cons_of_rel {rel : Nat → Nat → Prop} {uid p : Nat} {ps : List Nat}
    (h : rel p uid) : firstApart rel uid (p :: ps) = firstApart rel uid ps := by
  rw [firstApart, List.find?_cons_of_neg (by simpa using h), firstApart]

theorem firstApart_cons_of_not_rel {rel : Nat → Nat → Prop} {uid p : Nat} {ps : List Nat}
    (h : ¬rel p uid) : firstApart rel uid (p :: ps) = some p := by
  rw [firstApart, List.find?_cons_of_pos (by simpa using h)]

/-- Two walks up the forest tell whether two numbers are in one tree, and change none. -/
theorem find_find (u : Forest) (x y : Nat) :
    ((u.find x).1 = ((u.find x).2.find y).1 ↔ u.Same x y) ∧
      ((u.find x).2.find y).2.Same = u.Same := by
  rw [Forest.find_fst, Forest.find_fst, Forest.root_find, Forest.same_find, Forest.same_find]
  exact ⟨Iff.rfl, rfl⟩

/-- A message is joined to its first parent that is not in its tree. -/
theorem linkFirst_spec (uid : Nat) (ps : List Nat) (u : Forest) :
    match firstApart u.Same uid ps with
    | some p => (linkFirst uid ps u).1 = true ∧ (linkFirst uid ps u).2.Same = joinRel u.Same p uid
    | none => (linkFirst uid ps u).1 = false ∧ (linkFirst uid ps u).2.Same = u.Same := by
  induction ps generalizing u with
  | nil => exact ⟨rfl, rfl⟩
  | cons p ps ih =>
    obtain ⟨hfind, hsame⟩ := find_find u p uid
    rw [linkFirst]
    by_cases h : u.Same p uid
    · rw [firstApart_cons_of_rel h, if_pos (hfind.mpr h)]
      have hrest := ih ((u.find p).2.find uid).2
      rwa [hsame] at hrest
    · rw [firstApart_cons_of_not_rel h, if_neg (mt hfind.mp h)]
      refine ⟨rfl, ?_⟩
      rw [Forest.same_union, hsame]

theorem byReferences_toPartition (inputs : List ThreadInput) (g : Grouping) (inp : ThreadInput) :
    (byReferences H inputs g inp).toPartition =
      g.toPartition.link inp.uid (parents H inputs inp) := by
  have hspec := linkFirst_spec inp.uid (parents H inputs inp) g.forest
  have hrel : g.toPartition.rel = g.forest.Same := rfl
  rw [byReferences, Grouping.toPartition, Partition.link, hrel]
  cases hp : firstApart g.forest.Same inp.uid (parents H inputs inp) with
  | none =>
    rw [hp] at hspec
    rw [hspec.1, hspec.2]
    rfl
  | some p =>
    rw [hp] at hspec
    rw [hspec.1, hspec.2]
    rfl

theorem bySubject_toPartition (st : (String → Option Nat) × Grouping) (inp : ThreadInput) :
    ((bySubject H st inp).1, (bySubject H st inp).2.toPartition) =
      Partition.subject H (st.1, st.2.toPartition) inp := by
  have hanchored : st.2.toPartition.anchored = st.2.anchored := rfl
  rw [bySubject, Partition.subject, hanchored]
  by_cases hskip : inp.messageID ≠ "" ∧ st.2.anchored inp.uid = true
  · rw [if_pos hskip, if_pos hskip]
  · rw [if_neg hskip, if_neg hskip]
    dsimp only
    by_cases hkey : subjectKey H inp.subject = ""
    · rw [if_pos hkey, if_pos hkey]
    · rw [if_neg hkey, if_neg hkey]
      cases st.1 (subjectKey H inp.subject) with
      | none => rfl
      | some anchor =>
        dsimp only
        obtain ⟨hfind, hsame⟩ := find_find st.2.forest anchor inp.uid
        have hrel : st.2.toPartition.rel = st.2.forest.Same := rfl
        rw [Partition.attach, hrel]
        by_cases h : st.2.forest.Same anchor inp.uid
        · rw [if_pos (hfind.mpr h), if_pos h]
          dsimp only
          rw [Grouping.toPartition, hsame]
          rfl
        · rw [if_neg (mt hfind.mp h), if_neg h]
          dsimp only
          rw [Grouping.toPartition, Forest.same_union, hsame]
          rfl

/-- **The grouping** by union-find is the partition. -/
theorem grouping_toPartition (inputs : List ThreadInput) :
    (grouping H inputs).toPartition = partition H inputs := by
  have href : (inputs.foldl (byReferences H inputs) ⟨Forest.discrete, fun _ => false⟩).toPartition =
      inputs.foldl (fun P inp => P.link inp.uid (parents H inputs inp))
        ⟨fun x y => x = y, fun _ => false⟩ := by
    rw [← Forest.same_discrete]
    exact (List.foldl_hom Grouping.toPartition
      fun g inp => (byReferences_toPartition inputs g inp).symm).symm
  rw [partition, ← href, grouping]
  have hsub : ∀ st : (String → Option Nat) × Grouping,
      inputs.foldl (Partition.subject H) (st.1, st.2.toPartition) =
        ((inputs.foldl (bySubject H) st).1, (inputs.foldl (bySubject H) st).2.toPartition) :=
    fun st => List.foldl_hom (fun st => (st.1, st.2.toPartition))
      fun st inp => (bySubject_toPartition st inp).symm
  rw [hsub (fun _ => none, _)]

theorem roots_eq (ids : List Nat) (u : Forest) :
    roots ids u = ids.map fun id => (id, u.root id) := by
  induction ids generalizing u with
  | nil => rfl
  | cons id ids ih =>
    rw [roots, List.map_cons, ih, Forest.find_fst]
    simp only [Forest.root_find]

theorem lookup_roots {ids : List Nat} {u : Forest} {z : Nat} (hz : z ∈ ids) :
    (roots ids u).lookup z = some (u.root z) := by
  rw [roots_eq]
  induction ids with
  | nil => cases hz
  | cons id ids ih =>
    rw [List.map_cons, List.lookup_cons]
    by_cases hid : z = id
    · simp [hid]
    · have hne : (z == id) = false := by simpa using hid
      rw [hne]
      exact ih ((List.mem_cons.mp hz).resolve_left hid)

/-- **`GroupThreads`** gives two messages the same root just if they are joined. -/
theorem same_groupThreads {inputs : List ThreadInput} {x y : Nat}
    (hx : x ∈ inputs.map ThreadInput.uid) (hy : y ∈ inputs.map ThreadInput.uid) :
    (groupThreads H inputs).lookup x = (groupThreads H inputs).lookup y ↔ Joined H inputs x y := by
  rw [groupThreads, lookup_roots hx, lookup_roots hy, Joined, ← grouping_toPartition, Option.some_inj]
  rfl

end Refinement

/-! ## References join -/

section References

variable {H : Headers} {P : Partition} {x y : Nat}

theorem Partition.link_mono (uid : Nat) (ps : List Nat) (h : P.rel x y) :
    (P.link uid ps).rel x y := by
  rw [Partition.link]
  split
  · exact .inl h
  · exact h

/-- A message is related to the first of its parents, now or before. -/
theorem Partition.link_head (hrefl : ∀ x, P.rel x x) (uid p : Nat) (ps : List Nat) :
    (P.link uid (p :: ps)).rel p uid := by
  by_cases h : P.rel p uid
  · exact P.link_mono uid _ h
  · rw [Partition.link, firstApart_cons_of_not_rel h]
    exact .inr (.inl ⟨hrefl p, hrefl uid⟩)

theorem Partition.subject_mono (st : (String → Option Nat) × Partition) (inp : ThreadInput)
    (h : st.2.rel x y) : (Partition.subject H st inp).2.rel x y := by
  rw [Partition.subject]
  split
  · exact h
  · dsimp only
    split
    · exact h
    · split
      · rw [Partition.attach]
        split
        · exact h
        · exact .inl h
      · exact h

/-- **References join.** A message is in one thread with the last of its references that is
there. -/
theorem joined_of_parent {inputs : List ThreadInput} {inp : ThreadInput} {p : Nat}
    (hinp : inp ∈ inputs) (h : (parents H inputs inp).head? = some p) :
    Joined H inputs p inp.uid := by
  have hlinks : ∀ (l : List ThreadInput) (P : Partition) (x y : Nat), P.rel x y →
      (l.foldl (fun P i => P.link i.uid (parents H inputs i)) P).rel x y := fun l P x y hP =>
    List.foldlRecOn (motive := fun Q : Partition => Q.rel x y) l _ hP
      fun Q hQ i _ => Q.link_mono i.uid _ hQ
  -- after pass 1, where the message is reached after `before`
  have hpass : (inputs.foldl (fun (P : Partition) i => P.link i.uid (parents H inputs i))
      ⟨fun x y => x = y, fun _ => false⟩).rel p inp.uid := by
    obtain ⟨before, behind, hsplit⟩ := List.append_of_mem hinp
    obtain ⟨ps, hps⟩ : ∃ ps, parents H inputs inp = p :: ps := by
      cases hp : parents H inputs inp with
      | nil => rw [hp] at h; cases h
      | cons q ps =>
        rw [hp] at h
        exact ⟨ps, by rw [Option.some.inj h]⟩
    conv => enter [1, 3]; rw [hsplit]
    rw [List.foldl_append, List.foldl_cons]
    refine hlinks behind _ _ _ ?_
    rw [hps]
    exact Partition.link_head (fun x => hlinks before _ _ _ rfl) inp.uid p ps
  rw [Joined, partition]
  refine List.foldlRecOn (motive := fun st : (String → Option Nat) × Partition =>
    st.2.rel p inp.uid) inputs (Partition.subject H) ?_ fun st hst i _ =>
      Partition.subject_mono st i hst
  exact hpass

end References

/-! ## Threads -/

/-- Two messages are in one of the threads. -/
def SameThread (groups : List (Nat × List ThreadNode)) (x y : Nat) : Prop :=
  ∃ g ∈ groups, (∃ n ∈ g.2, n.uid = x) ∧ ∃ n ∈ g.2, n.uid = y

section Threads

variable {H : Headers} {idx : ThreadIndex} {x y : Nat}

theorem mem_sortByUID {members : List ThreadNode} {n : ThreadNode} :
    n ∈ sortByUID members ↔ n ∈ members := List.mem_insertionSort _

theorem mem_buildThreadGroups {g : Nat × List ThreadNode} : g ∈ buildThreadGroups H idx ↔
    (∃ n ∈ idx.nodes.rows, rootOf H idx n.uid = g.1) ∧
      g.2 = sortByUID (idx.nodes.rows.filter fun n => rootOf H idx n.uid == g.1) := by
  rw [buildThreadGroups, List.mem_map]
  refine ⟨?_, ?_⟩
  · rintro ⟨root, hroot, rfl⟩
    obtain ⟨n, hn, hroot⟩ := List.mem_map.mp (List.mem_dedup.mp hroot)
    exact ⟨⟨n, hn, hroot⟩, rfl⟩
  · rintro ⟨⟨n, hn, hroot⟩, hmembers⟩
    refine ⟨g.1, List.mem_dedup.mpr (List.mem_map.mpr ⟨n, hn, hroot⟩), ?_⟩
    rw [← hmembers]

/-- The members of a thread are the messages with its root. -/
theorem mem_members {g : Nat × List ThreadNode} (hg : g ∈ buildThreadGroups H idx)
    {n : ThreadNode} : n ∈ g.2 ↔ n ∈ idx.nodes.rows ∧ rootOf H idx n.uid = g.1 := by
  rw [(mem_buildThreadGroups.mp hg).2, mem_sortByUID, List.mem_filter, beq_iff_eq]

/-- **Two messages** of the index are in one thread just if they are joined. -/
theorem sameThread_iff (hx : x ∈ idx.nodes.uids) (hy : y ∈ idx.nodes.uids) :
    SameThread (buildThreadGroups H idx) x y ↔
      Joined H (idx.nodes.rows.map threadInput) x y := by
  have hin : ∀ z, z ∈ idx.nodes.uids →
      z ∈ (idx.nodes.rows.map threadInput).map ThreadInput.uid := by
    intro z hz
    rw [List.map_map]
    exact hz
  have hroot : rootOf H idx x = rootOf H idx y ↔
      Joined H (idx.nodes.rows.map threadInput) x y := by
    rw [← same_groupThreads (hin x hx) (hin y hy), rootOf, rootOf, groupThreads,
      lookup_roots (hin x hx), lookup_roots (hin y hy), Option.getD_some, Option.getD_some,
      Option.some_inj]
  rw [← hroot]
  refine ⟨?_, fun h => ?_⟩
  · rintro ⟨g, hg, ⟨n, hn, rfl⟩, ⟨n', hn', rfl⟩⟩
    rw [((mem_members hg).mp hn).2, ((mem_members hg).mp hn').2]
  · obtain ⟨n, hn, rfl⟩ := List.mem_map.mp hx
    obtain ⟨n', hn', rfl⟩ := List.mem_map.mp hy
    have hg : (rootOf H idx n.uid, sortByUID (idx.nodes.rows.filter fun m =>
        rootOf H idx m.uid == rootOf H idx n.uid)) ∈ buildThreadGroups H idx :=
      mem_buildThreadGroups.mpr ⟨⟨n, hn, rfl⟩, rfl⟩
    exact ⟨_, hg, ⟨n, (mem_members hg).mpr ⟨hn, rfl⟩, rfl⟩,
      ⟨n', (mem_members hg).mpr ⟨hn', h.symm⟩, rfl⟩⟩

end Threads

/-! ## Replies -/

/-- The In-Reply-To of the first message names the second, and its References name no
other message of the folder. -/
def Replies (H : Headers) (box : Mailbox) (x y : Nat) : Prop :=
  ∃ m p, (x, m) ∈ box.items ∧ (y, p) ∈ box.items ∧ x ≠ y ∧
    (∃ id ∈ m.content.inReplyTo, normalizeMsgID H id ≠ "" ∧
      normalizeMsgID H id = normalizeMsgID H p.content.messageID) ∧
    ∀ ref ∈ parseReferencesHeader H m.content.references, ∀ z q, (z, q) ∈ box.items →
      normalizeMsgID H ref = normalizeMsgID H q.content.messageID → z = x ∨ z = y

/-- What a message of a folder is grouped by: its Message-ID, its References and its subject. -/
def groupedBy (H : Headers) (p : Nat × Message) : ThreadInput where
  uid := p.1
  messageID := normalizeMsgID H p.2.content.messageID
  references := parseReferencesHeader H p.2.content.references
  inReplyTo := ""
  subject := H.decodeRFC2047 p.2.content.subject

/-- **Replies.** Of an index with all messages of a folder, a reply is in the thread of the
message it replies to just if the two messages, among those of the folder in the order in which
they come in, are joined by References and subjects alone. -/
theorem replies_grouped_iff {H : Headers} {box : Mailbox} {r : FetchReply}
    (hr : r.Truthful box.items) (hok : r.err = none) {idx : ThreadIndex}
    (hidx : idx.nodes = fetchThreadNodes H Table.empty r) {x y : Nat} (h : Replies H box x y) :
    SameThread (buildThreadGroups H idx) x y ↔
      Joined H (r.messages.eraseDups.map (groupedBy H)) x y := by
  have hmem : ∀ z m, (z, m) ∈ box.items → z ∈ idx.nodes.uids := by
    intro z m hz
    rw [hidx, mem_uids_fetchThreadNodes]
    exact .inr ⟨Nat.ne_of_gt (box.positive _ hz), (z, m), hr.2 hok _ hz, rfl⟩
  have hrows : idx.nodes.rows.map threadInput = r.messages.eraseDups.map (groupedBy H) := by
    have hone : ∀ p ∈ r.messages, ∀ q ∈ r.messages, p.1 = q.1 → p = q := fun p hp q hq =>
      Numbered.eq_of_number (hr.1 p hp) (hr.1 q hq)
    rw [hidx, rows_fetchThreadNodes (fun p hp => Nat.ne_of_gt (box.positive p (hr.1 p hp))) hone,
      List.map_map]
    rfl
  obtain ⟨m, p, hx, hy, -⟩ := h
  rw [← hrows]
  exact sameThread_iff (hmem x m hx) (hmem y p hy)

instance (groups : List (Nat × List ThreadNode)) (x y : Nat) : Decidable (SameThread groups x y) :=
  inferInstanceAs (Decidable (∃ g ∈ groups, (∃ n ∈ g.2, n.uid = x) ∧ ∃ n ∈ g.2, n.uid = y))

/-- A folder with a message and a reply to it, of another subject, which has a References
header or not. -/
def withReply (references : String) : Mailbox :=
  Numbered.empty.add [⟨[], ⟨"<a>", [], "one", 0, [], ""⟩⟩,
    ⟨[], ⟨"<b>", ["<a>"], "two", 0, [], references⟩⟩]

/-- The index of the folder. -/
def replyIndex (references : String) : ThreadIndex where
  uidValidity := 1
  uidNext := 3
  count := 2
  builtAt := 0
  nodes := fetchThreadNodes asciiHeaders Table.empty ⟨(withReply references).items, none⟩

theorem replies_withReply {references : String} : Replies asciiHeaders (withReply references) 2 1 := by
  refine ⟨_, _, List.mem_cons_of_mem _ List.mem_cons_self, List.mem_cons_self, by decide,
    ⟨"<a>", List.mem_cons_self, by decide, rfl⟩, fun ref _ z q hq _ => ?_⟩
  rcases List.mem_cons.mp hq with hq | hq
  · exact .inr (congrArg Prod.fst hq)
  · exact .inl (congrArg Prod.fst (List.mem_singleton.mp hq))

/-- A reply with a References header is in the thread, so that the two are joined. -/
theorem replies_grouped_iff_referring :
    Joined asciiHeaders
      ((withReply "References: <a>\r\n").items.eraseDups.map (groupedBy asciiHeaders)) 2 1 := by
  have hr : FetchReply.Truthful ⟨(withReply "References: <a>\r\n").items, none⟩
      (withReply "References: <a>\r\n").items := ⟨fun _ hp => hp, fun _ _ hp => hp⟩
  have hidx : (replyIndex "References: <a>\r\n").nodes = fetchThreadNodes asciiHeaders Table.empty
      ⟨(withReply "References: <a>\r\n").items, none⟩ := rfl
  exact (replies_grouped_iff hr rfl hidx replies_withReply).mp (by decide +kernel)

/-- **A reply without References** is in a thread of its own: its In-Reply-To is not asked
for. -/
theorem reply_apart :
    ¬ ∀ (box : Mailbox) (r : FetchReply) (idx : ThreadIndex), r.Truthful box.items →
      r.err = none → idx.nodes = fetchThreadNodes asciiHeaders Table.empty r → ∀ x y,
      Replies asciiHeaders box x y → SameThread (buildThreadGroups asciiHeaders idx) x y := by
  intro h
  have hsame := h (withReply "") ⟨(withReply "").items, none⟩ (replyIndex "")
    ⟨fun _ hp => hp, fun _ _ hp => hp⟩ rfl rfl 2 1 replies_withReply
  exact absurd hsame (by decide +kernel)

end E2Mail.Imap
