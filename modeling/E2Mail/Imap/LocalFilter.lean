import E2Mail.Imap.ThreadFilter

/-!
# The backend's own test on a node

Where the server does not answer a search, a node is tested on what the index holds of it: its
subject, senders, flags and date.

* `Criterion.Holds` — what the index knows of a condition; the others never hold.
* `matchesNode_iff` — the conditions that the test looks at.
* `matchesNode_sound_iff` — when a node that passes the test satisfies the query.
-/

namespace E2Mail.Imap

variable (L : SearchLib)

/-- A text occurs in another one, in any case; the empty one does not. -/
def Mentions (s v : Bytes) : Prop := v ≠ [] ∧ L.toLower v <:+: L.toLower s

/-- A text occurs in the name or the address of a sender. -/
def SenderMentions (n : ThreadNode) (v : Bytes) : Prop :=
  ∃ fe ∈ n.summary.senders,
    L.toLower v <:+: L.toLower (utf8 fe.address) ∨ L.toLower v <:+: L.toLower (utf8 fe.name)

/-- A condition that the index can evaluate. -/
def Criterion.Evaluable : Criterion → Prop
  | .text _ | .since _ | .before _ => True
  | .header key _ => key = "From" ∨ key = "Subject"
  | .notFlag f => f = "\\Seen"
  | .flag f => f = "\\Seen" ∨ f = "\\Flagged"
  | .body _ | .larger _ | .smaller _ => False

/-- **Holds**: the node satisfies a condition, as far as the index knows. -/
def Criterion.Holds (n : ThreadNode) : Criterion → Prop
  | .text v => Mentions L (utf8 n.subject) v ∨ SenderMentions L n v
  | .header key v =>
    key = "From" ∧ SenderMentions L n v ∨ key = "Subject" ∧ Mentions L (utf8 n.subject) v
  | .notFlag f => f = "\\Seen" ∧ n.summary.unread = true
  | .flag f =>
    f = "\\Seen" ∧ n.summary.unread = false ∨ f = "\\Flagged" ∧ n.summary.starred = true
  | .since d => d ≤ n.date
  | .before d => n.date < d
  | .body _ | .larger _ | .smaller _ => False

/-- A node satisfies a query. -/
def SearchQuery.Satisfies (q : SearchQuery) (n : ThreadNode) : Prop :=
  ∀ c ∈ q.buildCriteria false, c.Holds L n

/-- A node passes a condition: it holds, is not evaluated, or is the date of the node. -/
def Criterion.Passes (n : ThreadNode) (c : Criterion) : Prop :=
  c.Evaluable → c.Holds L n ∨ c = .before n.date

variable {L} {n : ThreadNode}

theorem matchesText_iff {s v : Bytes} : matchesText L s [v] = true ↔ Mentions L s v := by
  simp [matchesText, Mentions, containsBytes]

theorem nodeFrom_iff {v : Bytes} : nodeFrom L n v = true ↔ SenderMentions L n v := by
  simp [nodeFrom, SenderMentions, containsBytes]

theorem evaluable_of_holds {c : Criterion} (h : c.Holds L n) : c.Evaluable := by
  cases c with
  | header key v => exact h.imp And.left And.left
  | notFlag f => exact h.1
  | flag f => exact h.imp And.left And.left
  | body | larger | smaller => exact h.elim
  | text | since | before => trivial

/-- The conditions of a query, one kind after the other. -/
theorem forall_criteria {p : Criterion → Prop} (q : SearchQuery) :
    (∀ c ∈ q.buildCriteria false, p c) ↔
      (∀ v ∈ q.text, p (.text v)) ∧ (∀ v ∈ q.senders, p (.header "From" v)) ∧
      (∀ v ∈ q.recipients, p (.header "To" v)) ∧ (∀ v ∈ q.cc, p (.header "Cc" v)) ∧
      (∀ v ∈ q.bcc, p (.header "Bcc" v)) ∧ (∀ v ∈ q.subject, p (.header "Subject" v)) ∧
      (∀ v ∈ q.body, p (.body v)) ∧ (q.unread = true → p (.notFlag "\\Seen")) ∧
      (q.read = true → p (.flag "\\Seen")) ∧ (q.starred = true → p (.flag "\\Flagged")) ∧
      (q.hasAttach = true → p (.flag "\\HasAttachment")) ∧ (q.after ≠ 0 → p (.since q.after)) ∧
      (q.before ≠ 0 → p (.before q.before)) ∧ (q.larger > 0 → p (.larger q.larger)) ∧
      (q.smaller > 0 → p (.smaller q.smaller)) := by
  have hif : ∀ (b : Prop) [Decidable b] (c : Criterion),
      (∀ c' ∈ (if b then [c] else []), p c') ↔ (b → p c) := by
    intro b _ c
    by_cases hb : b <;> simp [hb]
  simp only [SearchQuery.buildCriteria, List.forall_mem_append, List.forall_mem_map, hif, and_assoc,
    Bool.not_false, Bool.and_true]

/-- The test looks at the conditions that the index can evaluate, and at no others. -/
theorem matchesNode_iff (q : SearchQuery) :
    q.matchesNode L n = true ↔ ∀ c ∈ q.buildCriteria false, c.Passes L n := by
  rw [forall_criteria]
  by_cases hempty : q.isEmpty = true
  · have hnone := hempty
    simp only [SearchQuery.isEmpty, Bool.and_eq_true, List.isEmpty_iff, Bool.not_eq_true',
      beq_iff_eq] at hnone
    refine iff_of_true (by rw [SearchQuery.matchesNode, hempty, Bool.true_or]) ?_
    simp [hnone]
  · have htests : q.matchesNode L n = true ↔
        (∀ v ∈ q.text, Mentions L (utf8 n.subject) v ∨ SenderMentions L n v) ∧
        (∀ v ∈ q.senders, SenderMentions L n v) ∧
        (∀ v ∈ q.subject, Mentions L (utf8 n.subject) v) ∧
        (q.unread = true → n.summary.unread = true) ∧ (q.read = true → n.summary.unread = false) ∧
        (q.starred = true → n.summary.starred = true) ∧ (q.after ≠ 0 → q.after ≤ n.date) ∧
        (q.before ≠ 0 → n.date ≤ q.before) := by
      rw [SearchQuery.matchesNode, Bool.eq_false_iff.2 hempty, Bool.false_or]
      simp [matchesText_iff, nodeFrom_iff, and_assoc]
      grind
    have hdate : n.date ≤ q.before ↔ n.date < q.before ∨ q.before = n.date := by omega
    rw [htests, hdate]
    simp [Criterion.Passes, Criterion.Evaluable, Criterion.Holds]

/-- **Sound.** A node that passes the test satisfies the query, if it fails a condition that the
test looks at, or if the index can evaluate all of them and none is the date of the node. -/
theorem matchesNode_sound_iff (L : SearchLib) (q : SearchQuery) (n : ThreadNode) :
    (q.matchesNode L n = true → q.Satisfies L n) ↔
      (∃ c ∈ q.buildCriteria false, ¬c.Passes L n) ∨
        ∀ c ∈ q.buildCriteria false, c.Evaluable ∧ c ≠ .before n.date := by
  constructor
  · intro h
    by_cases hpass : ∀ c ∈ q.buildCriteria false, c.Passes L n
    · right
      intro c hc
      have hholds := h ((matchesNode_iff q).2 hpass) c hc
      refine ⟨evaluable_of_holds hholds, ?_⟩
      rintro rfl
      exact Nat.lt_irrefl _ hholds
    · left
      push Not at hpass
      exact hpass
  · rintro (⟨c, hc, hfail⟩ | h) hmatch c' hc'
    · exact absurd ((matchesNode_iff q).1 hmatch c hc) hfail
    · obtain ⟨heval, hdate⟩ := h c' hc'
      exact ((matchesNode_iff q).1 hmatch c' hc' heval).resolve_right hdate

/-- A message to nobody. -/
def undisclosed : ThreadNode := threadNode asciiHeaders 1 ⟨[], ⟨"<a>", [], "hello", 0, [], ""⟩⟩

/-- **Not tested.** A search for a recipient shows a message to nobody. -/
theorem recipient_not_tested : ¬∀ (L : SearchLib) (q : SearchQuery) (n : ThreadNode),
    q.matchesNode L n = true → q.Satisfies L n := by
  intro h
  have hmatch : (parseSearchQuery asciiSearch (utf8 "to:bob")).matchesNode asciiSearch undisclosed =
      true := by decide +kernel
  have hmem : Criterion.header "To" (utf8 "bob") ∈
      (parseSearchQuery asciiSearch (utf8 "to:bob")).buildCriteria false := by decide +kernel
  rcases h _ _ _ hmatch _ hmem with ⟨hkey, -⟩ | ⟨hkey, -⟩
  · exact absurd hkey (by decide)
  · exact absurd hkey (by decide)

end E2Mail.Imap
