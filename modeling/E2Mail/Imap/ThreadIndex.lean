import E2Mail.Imap.Client
import E2Mail.Lib.Lines
import E2Mail.Lib.Text

/-!
# The thread index

For each folder listed by threads the backend keeps an index: one node for each
message, with what the grouping needs of it. The index is filled by a FETCH of the
whole folder, and may be extended by a FETCH of the messages that are new.

* `ThreadNode`, `ThreadIndex` — the index; no two nodes have the same UID;
* `threadNode` — the node of a message;
* `mergeThreadNode`, `fetchThreadNodes` — how the index is filled;
* `FetchReply.Truthful` — what a server that tells the truth may send.
-/

namespace E2Mail.Imap

open Lib

/-- What the index takes from other packages. -/
structure Headers extends Strings where
  /-- `charsetutil.DecodeRFC2047`: the text of an encoded header -/
  decodeRFC2047 : String → String

/-- The letters of ASCII, and headers that are not encoded. -/
def asciiHeaders : Headers := { asciiStrings with decodeRFC2047 := id }

/-- `strings.ToLower` takes the characters one by one, and those of ASCII as usual. -/
structure Headers.CharWise (H : Headers) where
  /-- `unicode.ToLower` -/
  lower : Char → Char
  toLower_eq : ∀ s, H.toLower s = String.ofList (s.toList.map lower)
  ascii : ∀ c : Char, c.toNat < 0x80 → lower c = c.toLower

/-- The letters of ASCII are taken one by one. -/
def asciiCharWise : asciiHeaders.CharWise := ⟨Char.toLower, fun _ => rfl, fun _ _ => rfl⟩

/-! ## Headers -/

/-- `unicode.IsSpace`. -/
def isSpace (c : Char) : Bool :=
  let n := c.toNat
  (9 ≤ n && n ≤ 13) || n == 0x20 || n == 0x85 || n == 0xa0 || n == 0x1680 ||
    (0x2000 ≤ n && n ≤ 0x200a) || n == 0x2028 || n == 0x2029 || n == 0x202f || n == 0x205f ||
    n == 0x3000

/-- `strings.TrimSpace`. -/
def trimSpace (s : String) : String := String.ofList (Text.trimBy isSpace s.toList)

/-- `normalizeMsgID`: without blanks and angle brackets, in lower case. -/
def normalizeMsgID (H : Headers) (s : String) : String :=
  let s := Text.trimBy isSpace s.toList
  let s := Text.trimPrefix ['<'] s
  let s := Text.trimSuffix ['>'] s
  H.toLower (trimSpace (String.ofList s))

/-- A text in UTF-8. -/
def bytes (s : List Char) : Octets := s.flatMap String.utf8EncodeChar

/-- `parseReferencesHeader`: the message ids after "References:", the header unfolded. -/
def parseReferencesHeader (H : Headers) (raw : String) : List String :=
  let normalized := Text.replaceAll ['\r', '\n', ' '] [' '] raw.toList
  let normalized := Text.replaceAll ['\r', '\n', '\t'] [' '] normalized
  let lower := (H.toLower (String.ofList normalized)).toList
  match Text.after "references:".toList lower with
  | none => []
  | some rest =>
    -- the place of a byte in `lower`; if `normalized` is shorter, the slice panics
    let start := (bytes lower).length - (bytes rest).length
    let value := decode ((bytes normalized).drop start)
    let value := value.takeWhile fun c => !(c == '\r' || c == '\n')
    (Text.splitBy (· == '>') value).filterMap fun part =>
      let tok := Text.trimBy isSpace (Text.trimPrefix ['<'] (Text.trimBy isSpace part))
      if tok = [] then none else some (normalizeMsgID H (String.ofList tok))

/-! ## Nodes -/

/-- `EmailAddress`. -/
structure EmailAddress where
  /-- the display name -/
  name : String
  /-- the address -/
  address : String
  deriving DecidableEq, Repr

/-- `MessageSummary`, as far as the thread list fills it in. -/
structure MessageSummary where
  /-- `UID` -/
  uid : Nat
  /-- `MessageID`, as in the ENVELOPE -/
  messageID : String
  /-- `Subject`, decoded -/
  subject : String
  /-- `Date` -/
  date : Nat
  /-- `From`, decoded -/
  senders : List EmailAddress
  /-- `Unread` -/
  unread : Bool
  /-- `Starred` -/
  starred : Bool
  /-- `HasAttachment` -/
  hasAttachment : Bool
  /-- `ThreadID` -/
  threadID : String
  deriving DecidableEq, Repr

/-- `threadNode`: a message in the index. -/
structure ThreadNode where
  /-- `uid` -/
  uid : Nat
  /-- `msgID`, normalised -/
  msgID : String
  /-- `refs`, the message ids of the References header -/
  refs : List String
  /-- `subject`, decoded -/
  subject : String
  /-- `date` -/
  date : Nat
  /-- `summary` -/
  summary : MessageSummary
  /-- of the same message -/
  summary_uid : summary.uid = uid
  deriving DecidableEq

/-- The node that `fetchThreadNodes` makes of a message. -/
def threadNode (H : Headers) (uid : Nat) (m : Message) : ThreadNode :=
  let subject := H.decodeRFC2047 m.content.subject
  { uid := uid
    msgID := normalizeMsgID H m.content.messageID
    refs := parseReferencesHeader H m.content.references
    subject := subject
    date := m.content.date
    summary :=
      { uid := uid
        messageID := m.content.messageID
        subject := subject
        date := m.content.date
        senders := m.content.senders.map fun a => ⟨H.decodeRFC2047 a.1, a.2⟩
        unread := !m.flags.contains "\\Seen"
        starred := m.flags.contains "\\Flagged"
        hasAttachment := false
        threadID := "" }
    summary_uid := rfl }

/-! ## The index -/

/-- The nodes of an index, by UID (`nodes` and `byUID` in one). -/
abbrev Nodes := Table ThreadNode.uid

/-- `threadIndex`: the index of a folder. -/
structure ThreadIndex where
  /-- `uidValidity` of the folder -/
  uidValidity : Nat
  /-- `uidNext`: UIDs from here on are not in the index yet -/
  uidNext : Nat
  /-- `count`: how many messages the folder had -/
  count : Nat
  /-- `builtAt` -/
  builtAt : Nat
  /-- `nodes` and `byUID` -/
  nodes : Nodes

/-- `mergeThreadNode`: in the place of the node with the UID, else at the end. -/
def mergeThreadNode (nodes : Nodes) (node : ThreadNode) : Nodes :=
  match h : nodes.insert? node with
  | some nodes' => nodes'
  | none => nodes.update (fun n => n.uid == node.uid)
      (fun n => if n.uid = node.uid then node else n) fun n => by split <;> simp [*]

/-- What comes in for a FETCH. -/
structure FetchReply where
  /-- the messages, in the order they come -/
  messages : List (Nat × Message)
  /-- the error of `fetchCmd.Close()`, if the command failed in the end -/
  err : Option String

/-- The messages that a FETCH asks for: `1:*` while the index is empty, else
`fromUID:*`, where `*` is the last UID and the ends may stand in any order. -/
def fetchSet (nodes : Nodes) (fromUID : Nat) (box : Mailbox) : List (Nat × Message) :=
  if nodes.rows = [] then box.items
  else
    match box.items.getLast? with
    | none => []
    | some last => box.items.filter fun p => min fromUID last.1 ≤ p.1 && p.1 ≤ max fromUID last.1

/-- A server that tells the truth sends the messages that were asked for, in some
order, and fewer of them only if the command fails. -/
def FetchReply.Truthful (r : FetchReply) (asked : List (Nat × Message)) : Prop :=
  (∀ p ∈ r.messages, p ∈ asked) ∧ (r.err = none → ∀ p ∈ asked, p ∈ r.messages)

instance (r : FetchReply) (asked : List (Nat × Message)) : Decidable (r.Truthful asked) :=
  inferInstanceAs (Decidable (_ ∧ _))

/-- `fetchThreadNodes`: merges what comes in; messages without a UID are skipped. -/
def fetchThreadNodes (H : Headers) (nodes : Nodes) (r : FetchReply) : Nodes :=
  (r.messages.filter fun p => p.1 != 0).foldl
    (fun nodes p => mergeThreadNode nodes (threadNode H p.1 p.2)) nodes

/-- The UIDs in an index. -/
def Nodes.uids (nodes : Nodes) : List Nat := nodes.rows.map ThreadNode.uid

/-! ## What merging leaves -/

section Merge

variable {H : Headers} {nodes : Nodes} {uid : Nat}

theorem mem_uids_mergeThreadNode {node : ThreadNode} :
    uid ∈ (mergeThreadNode nodes node).uids ↔ uid ∈ nodes.uids ∨ uid = node.uid := by
  unfold mergeThreadNode
  split
  · rename_i nodes' h
    obtain ⟨-, hrows⟩ := Table.insert?_eq_some.mp h
    simp [Nodes.uids, hrows]
  · rename_i h
    have hmem : node.uid ∈ nodes.uids := Table.insert?_eq_none.mp h
    have hsame : (nodes.rows.map fun n => if (n.uid == node.uid) = true then
        (if n.uid = node.uid then node else n) else n).map ThreadNode.uid =
        nodes.rows.map ThreadNode.uid := by
      rw [List.map_map]
      refine List.map_congr_left fun n _ => ?_
      by_cases hn : n.uid = node.uid <;> simp [hn]
    rw [Nodes.uids, Table.rows_update, hsame]
    refine ⟨.inl, ?_⟩
    rintro (h | rfl)
    · exact h
    · exact hmem

/-- **A FETCH adds** the UIDs that come in, and removes none. -/
theorem mem_uids_fetchThreadNodes {r : FetchReply} :
    uid ∈ (fetchThreadNodes H nodes r).uids ↔
      uid ∈ nodes.uids ∨ (uid ≠ 0 ∧ ∃ p ∈ r.messages, p.1 = uid) := by
  have hfold : ∀ l : List (Nat × Message), uid ∈ (l.foldl
      (fun nodes p => mergeThreadNode nodes (threadNode H p.1 p.2)) nodes).uids ↔
      uid ∈ nodes.uids ∨ ∃ p ∈ l, p.1 = uid := by
    intro l
    induction l generalizing nodes with
    | nil => simp
    | cons p l ih =>
      rw [List.foldl_cons, ih, mem_uids_mergeThreadNode, List.exists_mem_cons_iff, or_assoc]
      simp [threadNode, eq_comm]
  rw [fetchThreadNodes, hfold]
  refine or_congr Iff.rfl ?_
  simp only [List.mem_filter, bne_iff_ne, ne_eq]
  refine ⟨?_, ?_⟩
  · rintro ⟨p, ⟨hp, hne⟩, rfl⟩
    exact ⟨hne, p, hp, rfl⟩
  · rintro ⟨hne, p, hp, rfl⟩
    exact ⟨p, ⟨hp, hne⟩, rfl⟩

theorem rows_mergeThreadNode_of_not_mem {node : ThreadNode} (h : node.uid ∉ nodes.uids) :
    (mergeThreadNode nodes node).rows = nodes.rows ++ [node] := by
  unfold mergeThreadNode
  split
  · rename_i nodes' hinsert
    exact (Table.insert?_eq_some.mp hinsert).2
  · rename_i hinsert
    exact absurd (Table.insert?_eq_none.mp hinsert) h

theorem rows_mergeThreadNode_of_mem {node : ThreadNode} (h : node ∈ nodes.rows) :
    (mergeThreadNode nodes node).rows = nodes.rows := by
  unfold mergeThreadNode
  split
  · rename_i nodes' hinsert
    exact absurd (List.mem_map_of_mem h) (Table.insert?_eq_some.mp hinsert).1
  · rw [Table.rows_update]
    conv_rhs => rw [← List.map_id nodes.rows]
    refine List.map_congr_left fun n hn => ?_
    split
    · rename_i huid
      rw [Table.eq_of_key hn h (beq_iff_eq.mp huid), if_pos rfl]
      rfl
    · rfl

/-- **A FETCH of a whole folder** leaves the nodes of its messages, in the order in which they come
first. -/
theorem rows_fetchThreadNodes {r : FetchReply} (hpos : ∀ p ∈ r.messages, p.1 ≠ 0)
    (hone : ∀ p ∈ r.messages, ∀ q ∈ r.messages, p.1 = q.1 → p = q) :
    (fetchThreadNodes H Table.empty r).rows = r.messages.eraseDups.map fun p => threadNode H p.1 p.2 := by
  have hall : r.messages.filter (fun p => p.1 != 0) = r.messages :=
    List.filter_eq_self.mpr fun p hp => bne_iff_ne.mpr (hpos p hp)
  have hfold : ∀ l ⊆ r.messages,
      (l.foldl (fun nodes p => mergeThreadNode nodes (threadNode H p.1 p.2)) Table.empty).rows =
        l.eraseDups.map fun p => threadNode H p.1 p.2 := by
    intro l
    induction l using List.reverseRecOn with
    | nil => exact fun _ => rfl
    | append_singleton l p ih =>
      intro hl
      have hrows := ih fun q hq => hl (List.mem_append_left [p] hq)
      rw [List.foldl_append, List.foldl_cons, List.foldl_nil, List.eraseDups_append]
      by_cases hp : p ∈ l
      · have hnone : [p].removeAll l = [] := by simp [List.removeAll, hp]
        rw [hnone, List.eraseDups_nil, List.append_nil, ← hrows]
        refine rows_mergeThreadNode_of_mem ?_
        rw [hrows]
        exact List.mem_map_of_mem (List.mem_eraseDups.mpr hp)
      · have hsome : [p].removeAll l = [p] := by simp [List.removeAll, hp]
        rw [hsome, List.map_append, ← hrows]
        refine rows_mergeThreadNode_of_not_mem fun hmem => ?_
        rw [Nodes.uids, hrows, List.map_map, List.mem_map] at hmem
        obtain ⟨q, hq, huid⟩ := hmem
        have hql := List.mem_eraseDups.mp hq
        obtain rfl := hone q (hl (List.mem_append_left [p] hql)) p
          (hl (List.mem_append_right l List.mem_cons_self)) huid
        exact hp hql
  rw [fetchThreadNodes, hall]
  exact hfold _ (List.Subset.refl _)

end Merge

end E2Mail.Imap
