import E2Mail.Sieve.Complete
import E2Mail.Sieve.Generated

/-!
# Rules that come back

A script that is generated from well-formed rules is parsed to the same rules, but for
what does not show in the script: the fields that a condition or an action does not use,
the space around commas, and how a single condition is joined. The `stop` that the
generator adds comes back as an action.

* `SieveRule.WellFormed` — the rules it holds for;
* `SieveRule.Same` — what comes back;
* `roundTrip` — that it does, and that the script generated again is the same text.
-/

namespace E2Mail.Sieve

open Lib.Text

/-! ## Lists with commas -/

/-- An item as `splitList` gives it. -/
def IsItem (item : Text) : Prop := item ≠ [] ∧ trim item = item ∧ ',' ∉ item

theorem mem_splitOn {c : Char} : ∀ {s part : Text}, part ∈ s.splitOn c → c ∉ part := by
  intro s
  induction s with
  | nil => simp
  | cons d s ih =>
    intro part hpart
    rw [List.splitOn_cons_eq_if_modifyHead] at hpart
    split at hpart
    · obtain rfl | hpart := List.mem_cons.mp hpart
      · simp
      · exact ih hpart
    · rename_i hd
      cases hparts : s.splitOn c with
      | nil => exact absurd hparts (List.splitOn_ne_nil c s)
      | cons first rest =>
        rw [hparts] at hpart
        obtain rfl | hpart := List.mem_cons.mp hpart
        · have hfirst : c ∉ first := ih (by rw [hparts]; exact List.mem_cons_self)
          simp only [List.mem_cons, not_or]
          exact ⟨fun heq => hd (by simp [heq]), hfirst⟩
        · exact ih (by rw [hparts]; exact List.mem_cons_of_mem _ hpart)

theorem mem_of_mem_trim {c : Char} {s : Text} (h : c ∈ trim s) : c ∈ s := by
  rw [trim, trimBy, List.mem_reverse] at h
  have h := (List.dropWhile_suffix isWhite).subset h
  rw [List.mem_reverse] at h
  exact (List.dropWhile_suffix isWhite).subset h

theorem isItem_of_mem {s : Option Text} {item : Text} (h : item ∈ splitList s) : IsItem item := by
  cases s with
  | none => cases h
  | some s =>
    rw [splitList] at h
    split at h
    · cases h
    · obtain ⟨hmem, hne⟩ := List.mem_filter.mp h
      obtain ⟨part, hpart, rfl⟩ := List.mem_map.mp hmem
      exact ⟨by simpa using hne, trimBy_trimBy isWhite part,
        fun hc => mem_splitOn hpart (mem_of_mem_trim hc)⟩

/-- **Items joined with commas** are split into the same items. -/
theorem splitList_joinComma {items : List Text} (h : ∀ item ∈ items, IsItem item) :
    splitList (some (joinComma items)) = items := by
  cases items with
  | nil => rfl
  | cons first rest =>
    have hne : (joinComma (first :: rest)).isEmpty = false := by
      obtain ⟨c, s, hfirst⟩ := List.exists_cons_of_ne_nil (h first List.mem_cons_self).1
      rw [joinComma, intercalate_cons, hfirst]
      rfl
    have hsplit : (joinComma (first :: rest)).splitOn ',' = first :: rest :=
      List.splitOn_intercalate ',' (fun item hitem => (h item hitem).2.2) (List.cons_ne_nil _ _)
    have htrim : (first :: rest).map trim = first :: rest := by
      rw [List.map_congr_left fun item hitem => (h item hitem).2.1, List.map_id']
    rw [splitList, hne, if_neg Bool.false_ne_true, hsplit, htrim, List.filter_eq_self]
    intro item hitem
    simpa using (h item hitem).1

/-- Once split and joined, a list is split into the same items. -/
theorem splitList_normal (s : Option Text) :
    splitList (some (joinComma (splitList s))) = splitList s :=
  splitList_joinComma fun _ hitem => isItem_of_mem hitem

/-! ## Well-formed rules, and what comes back -/

/-- An action has what it needs: an argument, flags with at most one backslash in front,
a nonempty text. -/
def SieveAction.Argued (a : SieveAction) : Prop :=
  match a.type with
  | .fileinto => splitList a.mailbox ≠ []
  | .redirect => a.address.getD [] ≠ []
  | .reject => a.text.getD [] ≠ []
  | .setflag | .addflag | .removeflag =>
    splitList a.flag ≠ [] ∧ ∀ flag ∈ splitList a.flag, ¬['\\', '\\'] <+: flag
  | .discard | .keep | .stop => True

/-- A condition has what it needs: headers, and for `true` no negation. -/
def SieveCondition.Complete (c : SieveCondition) : Prop :=
  match c.test with
  | .headerTest | .existsTest => splitList (some c.header) ≠ []
  | .addressTest => True
  | .trueTest => c.negated = false

/-- A rule that comes back. -/
structure SieveRule.WellFormed (rule : SieveRule) : Prop where
  /-- it is in the script -/
  enabled : rule.enabled = true
  /-- its name is not empty, -/
  name_ne : rule.name ≠ []
  /-- is trimmed, -/
  name_trim : trim rule.name = rule.name
  /-- and has no closing bracket -/
  name_bracket : ']' ∉ rule.name
  /-- nor a line break in it -/
  name_line : '\n' ∉ rule.name
  /-- there is a condition -/
  conditions_ne : rule.conditions ≠ []
  /-- the conditions are complete, -/
  conditions : ∀ c ∈ rule.conditions, c.Complete
  /-- and the actions have their arguments -/
  actions : ∀ a ∈ rule.actions, a.Argued

/-- The second condition says the same as the first: a field that a test does not use may
differ. -/
structure SieveCondition.Same (c d : SieveCondition) : Prop where
  /-- `test` -/
  test : d.test = c.test
  /-- `negated` -/
  negated : d.negated = c.negated
  /-- `part`, of an address -/
  part : c.test = .addressTest → d.part = c.part
  /-- `op`, where something is compared -/
  op : c.test = .headerTest ∨ c.test = .addressTest → d.op = c.op
  /-- `value`, where something is compared -/
  value : c.test = .headerTest ∨ c.test = .addressTest → d.value = c.value
  /-- the headers, where there are any -/
  headers : c.test ≠ .trueTest → splitList (some d.header) = splitList (some c.header)

/-- The second action says the same as the first. -/
structure SieveAction.Same (a b : SieveAction) : Prop where
  /-- `type` -/
  type : b.type = a.type
  /-- the mailboxes, -/
  mailbox : a.type = .fileinto → splitList b.mailbox = splitList a.mailbox
  /-- and whether a copy is kept -/
  copy : a.type = .fileinto → (b.copy = some true ↔ a.copy = some true)
  /-- `address` -/
  address : a.type = .redirect → b.address = a.address
  /-- `text` -/
  text : a.type = .reject → b.text = a.text
  /-- the flags -/
  flag : a.type = .setflag ∨ a.type = .addflag ∨ a.type = .removeflag →
    splitList b.flag = splitList a.flag

/-- The second rule says the same as the first; it has the `stop` that was added. -/
structure SieveRule.Same (r s : SieveRule) : Prop where
  /-- `name` -/
  name : s.name = r.name
  /-- `enabled` -/
  enabled : s.enabled = r.enabled
  /-- how the conditions are joined, if there are several -/
  join : r.conditions.length ≠ 1 → s.conditionJoin = r.conditionJoin
  /-- the conditions, in order -/
  conditions : List.Forall₂ SieveCondition.Same r.conditions s.conditions
  /-- the actions, in order -/
  actions : ∃ kept, s.actions = kept ++ (if r.addsStop then [{ type := .stop }] else []) ∧
    List.Forall₂ SieveAction.Same r.actions kept

/-! ## Conditions -/

/-- The condition as it comes back. -/
def SieveCondition.normal (c : SieveCondition) : SieveCondition :=
  let header := joinComma (splitList (some c.header))
  match c.test with
  | .headerTest => ⟨.headerTest, .whole, c.op, c.negated, header, c.value⟩
  | .addressTest => ⟨.addressTest, c.part, c.op, c.negated, header, c.value⟩
  | .existsTest => ⟨.existsTest, .whole, .isOp, c.negated, header, []⟩
  | .trueTest => trueCondition

theorem SieveCondition.same_normal {c : SieveCondition} (h : c.Complete) : c.Same c.normal := by
  obtain ⟨test, part, op, negated, header, value⟩ := c
  cases test with
  | headerTest => exact ⟨rfl, rfl, by simp, fun _ => rfl, fun _ => rfl, fun _ => splitList_normal _⟩
  | addressTest =>
    exact ⟨rfl, rfl, fun _ => rfl, fun _ => rfl, fun _ => rfl, fun _ => splitList_normal _⟩
  | existsTest => exact ⟨rfl, rfl, by simp, by simp, by simp, fun _ => splitList_normal _⟩
  | trueTest => exact ⟨rfl, h.symm, by simp, by simp, by simp, fun hne => absurd rfl hne⟩

/-- A complete condition is written as before once it has come back. -/
theorem SieveCondition.conditionTest_normal {c : SieveCondition} (h : c.Complete) :
    conditionTest c.normal = conditionTest c := by
  obtain ⟨test, part, op, negated, header, value⟩ := c
  cases test with
  | headerTest | addressTest | existsTest =>
    simp only [conditionTest, conditionCore, SieveCondition.normal, splitList_normal]
    rfl
  | trueTest =>
    obtain rfl : negated = false := h
    rfl

/-- The condition is written as the test `t`, which is read as the node `n`, and that as
the condition as it comes back. -/
structure SieveCondition.Back (c : SieveCondition) (t : Test) (n : TestNode) : Prop where
  /-- it is written -/
  toTest : c.toTest = some t
  /-- without comparators, -/
  plain : t.plain = true
  /-- it may stand after `if`, -/
  entry : ∀ block, (Statement.ifThen t block).plain = true
  /-- it is read, -/
  node : t.node 0 = some n
  /-- and it is one condition again -/
  flat : flattenTest n = some (.allof, [c.normal])

theorem readTags_op (op : SieveConditionOp) :
    readTags [.tag op.word] none .whole = some (op, .whole) := by
  cases op <;> decide

theorem readTags_part {part : SieveAddressPart} (hpart : part ≠ .whole) (op : SieveConditionOp) :
    readTags [.tag part.word, .tag op.word] none .whole = some (op, part) := by
  cases part with
  | whole => exact absurd rfl hpart
  | domain | localpart | user => cases op <;> decide

/-- The tags of an address test. -/
def addressTags (part : SieveAddressPart) (op : SieveConditionOp) : List TestTag :=
  (if part = .whole then [] else [.tag part.word]) ++ [.tag op.word]

theorem readTags_address (part : SieveAddressPart) (op : SieveConditionOp) :
    readTags (addressTags part op) none .whole = some (op, part) := by
  rw [addressTags]
  by_cases hpart : part = .whole
  · subst hpart
    exact readTags_op op
  · rw [if_neg hpart]
    exact readTags_part hpart op

/-- What a negation adds to a test that is one condition. -/
theorem SieveCondition.back_of_core {c : SieveCondition} {kind : SimpleKind} {tags : List TestTag}
    {args : List StrList} {s : SimpleTest} (hcore : c.core = some (.simple kind tags args))
    (hplain : tags.all TestTag.plain = true) (hnode : simpleNode kind tags args = some s)
    (hflat : flattenTest (.simple { s with negated := c.negated }) = some (.allof, [c.normal]))
    (hnegated : s.negated = false) : ∃ t n, c.Back t n := by
  have hread : ∀ depth, (Test.simple kind tags args).node depth = some (.simple s) := fun depth => by
    rw [Test.node, hnode, Option.map_some]
  have hsimple : (Test.simple kind tags args).plain = true := by
    rw [Test.plain, hplain]
  cases hneg : c.negated with
  | false =>
    rw [hneg, ← hnegated] at hflat
    exact ⟨.simple kind tags args, .simple s, by rw [toTest, hcore, hneg]; rfl, hsimple,
      fun _ => hsimple, hread 0, hflat⟩
  | true =>
    rw [hneg] at hflat
    refine ⟨.neg (.simple kind tags args), .simple { s with negated := true },
      by rw [toTest, hcore, hneg]; rfl, hsimple, fun _ => hsimple, ?_, hflat⟩
    rw [Test.node, if_neg (Nat.lt_irrefl 0), hread 1]

/-- **A complete condition comes back.** -/
theorem SieveCondition.back {c : SieveCondition} (h : c.Complete) : ∃ t n, c.Back t n := by
  obtain ⟨test, part, op, negated, header, value⟩ := c
  have hlist := cases_listOf (splitList (some header))
  cases test with
  | trueTest =>
    obtain rfl : negated = false := h
    exact ⟨.truth, .truth, rfl, rfl, fun _ => rfl, rfl, rfl⟩
  | existsTest =>
    obtain ⟨hempty, -⟩ | ⟨-, list, hlist, hitems, -⟩ := hlist
    · exact absurd (List.isEmpty_iff.mp hempty) h
    · have hcore : SieveCondition.core ⟨.existsTest, part, op, negated, header, value⟩ =
          some (.simple .existsTest [] [list]) := by
        simp only [core, hlist, Option.map_some]
      refine back_of_core (s := ⟨.existsTest, none, .isOp, false, list.items, []⟩) hcore rfl rfl ?_ rfl
      rw [hitems]
      rfl
  | headerTest =>
    obtain ⟨hempty, -⟩ | ⟨hne, list, hlist, hitems, -⟩ := hlist
    · exact absurd (List.isEmpty_iff.mp hempty) h
    · have hcore : SieveCondition.core ⟨.headerTest, part, op, negated, header, value⟩ =
          some (.simple .headerTest [.tag op.word] [list, .one value]) := by
        simp only [core, hlist, Option.map_some]
      refine back_of_core (s := ⟨.headerTest, none, op, false, list.items, [value]⟩) hcore rfl ?_ ?_ rfl
      · rw [simpleNode, readTags_op]
        simp only [List.map_cons, List.map_nil, headersAndValues, hitems, hne, StrList.items_one]
        rfl
      · rw [hitems]
        rfl
  | addressTest =>
    have hplain : (addressTags part op).all TestTag.plain = true := by
      cases part <;> rfl
    have hflat : ∀ headers, headers = splitList (some header) →
        flattenTest (.simple ⟨.addressTest, some part, op, negated, headers, [value]⟩) =
          some (.allof, [SieveCondition.normal ⟨.addressTest, part, op, negated, header, value⟩]) := by
      rintro headers rfl
      rfl
    obtain ⟨hempty, hnone⟩ | ⟨-, list, hlist, hitems, -⟩ := hlist
    · have hcore : SieveCondition.core ⟨.addressTest, part, op, negated, header, value⟩ =
          some (.simple .addressTest (addressTags part op) [.one value]) := by
        simp only [core, hnone, Option.toList_none, List.nil_append, addressTags]
      refine back_of_core (s := ⟨.addressTest, some part, op, false, [], [value]⟩) hcore hplain ?_ ?_ rfl
      · rw [simpleNode, readTags_address]
        rfl
      · exact hflat [] (List.isEmpty_iff.mp hempty).symm
    · have hcore : SieveCondition.core ⟨.addressTest, part, op, negated, header, value⟩ =
          some (.simple .addressTest (addressTags part op) [list, .one value]) := by
        simp only [core, hlist, Option.toList_some, List.singleton_append, addressTags]
      refine back_of_core (s := ⟨.addressTest, some part, op, false, list.items, [value]⟩) hcore hplain
        ?_ ?_ rfl
      · rw [simpleNode, readTags_address]
        rfl
      · exact hflat list.items hitems

/-- Conditions with their tests and nodes. -/
def Backs (conditions : List SieveCondition) (pairs : List (Test × TestNode)) : Prop :=
  List.Forall₂ (fun c (pair : Test × TestNode) => c.Back pair.1 pair.2) conditions pairs

theorem exists_backs {conditions : List SieveCondition} (h : ∀ c ∈ conditions, c.Complete) :
    ∃ pairs, Backs conditions pairs := by
  induction conditions with
  | nil => exact ⟨[], .nil⟩
  | cons c conditions ih =>
    obtain ⟨t, n, hback⟩ := SieveCondition.back (h c List.mem_cons_self)
    obtain ⟨pairs, hrest⟩ := ih fun d hd => h d (List.mem_cons_of_mem c hd)
    exact ⟨(t, n) :: pairs, .cons hback hrest⟩

namespace Backs

variable {conditions : List SieveCondition} {pairs : List (Test × TestNode)}

theorem mapM_toTest (h : Backs conditions pairs) :
    conditions.mapM SieveCondition.toTest = some (pairs.map Prod.fst) := by
  rw [mapM_eq_some_iff, List.forall₂_map_right_iff]
  exact h.imp fun _ _ hback => hback.toTest

theorem allPlain (h : Backs conditions pairs) : Test.allPlain (pairs.map Prod.fst) = true := by
  induction h with
  | nil => rfl
  | cons hback _ ih => rw [List.map_cons, Test.allPlain, hback.plain, ih, Bool.and_self]

theorem nodes (h : Backs conditions pairs) :
    Test.nodes 0 (pairs.map Prod.fst) = some (pairs.map Prod.snd) := by
  induction h with
  | nil => rfl
  | cons hback _ ih => rw [List.map_cons, Test.nodes, hback.node, ih, List.map_cons]

theorem flattenChildren (h : Backs conditions pairs) (join : Join) (only : Bool) :
    flattenChildren join only (pairs.map Prod.snd) =
      some (conditions.map SieveCondition.normal) := by
  induction h with
  | nil => rfl
  | cons hback _ ih =>
    rw [List.map_cons, Sieve.flattenChildren, hback.flat, ih]
    cases join <;> rfl

end Backs

/-! ## Actions -/

/-- The action as it comes back. -/
def SieveAction.normal (a : SieveAction) : SieveAction :=
  match a.type with
  | .fileinto =>
    { type := .fileinto, mailbox := some (joinComma (splitList a.mailbox)),
      copy := some (a.copy == some true) }
  | .redirect => { type := .redirect, address := a.address }
  | .reject => { type := .reject, text := a.text }
  | .setflag | .addflag | .removeflag =>
    { type := a.type, flag := some (joinComma (splitList a.flag)) }
  | type => { type := type }

theorem SieveAction.same_normal (a : SieveAction) : a.Same a.normal := by
  obtain ⟨type, mailbox, copy, address, text, flag⟩ := a
  cases type with
  | fileinto =>
    exact ⟨rfl, fun _ => splitList_normal _, fun _ => by simp [normal], by simp, by simp, by simp⟩
  | redirect => exact ⟨rfl, by simp, by simp, fun _ => rfl, by simp, by simp⟩
  | reject => exact ⟨rfl, by simp, by simp, by simp, fun _ => rfl, by simp⟩
  | discard | keep | stop => exact ⟨rfl, by simp, by simp, by simp, by simp, by simp⟩
  | setflag | addflag | removeflag =>
    exact ⟨rfl, by simp, by simp, by simp, by simp, fun _ => splitList_normal _⟩

/-- An action is written as before once it has come back, -/
theorem SieveAction.actionToSieve_normal (a : SieveAction) :
    actionToSieve a.normal = actionToSieve a := by
  obtain ⟨type, mailbox, copy, address, text, flag⟩ := a
  cases type with
  | fileinto =>
    simp only [actionToSieve, normal, splitList_normal]
    by_cases hcopy : copy = some true <;> simp [hcopy]
  | redirect | reject | discard | keep | stop => rfl
  | setflag | addflag | removeflag => simp only [actionToSieve, normal, splitList_normal]

/-- and requires the same. -/
theorem SieveAction.actionRequires_normal (a : SieveAction) (req : List Text) :
    actionRequires a.normal req = actionRequires a req := by
  obtain ⟨type, mailbox, copy, address, text, flag⟩ := a
  cases type with
  | fileinto => by_cases hcopy : copy = some true <;> simp [actionRequires, normal, hcopy]
  | redirect | reject | discard | keep | stop => rfl
  | setflag | addflag | removeflag => rfl

theorem oneBackslash_of_not {f : Text} (h : ¬['\\', '\\'] <+: f) : oneBackslash f = f := by
  obtain _ | ⟨c, f⟩ := f
  · rfl
  · by_cases hc : c = '\\'
    · subst hc
      cases f with
      | nil => rfl
      | cons d f =>
        have hd : d ≠ '\\' := by
          rintro rfl
          exact h ⟨f, rfl⟩
        have hdrop : (d :: f).dropWhile (· == '\\') = d :: f :=
          List.dropWhile_cons_of_neg (by simpa using hd)
        rw [oneBackslash, List.dropWhile_cons_of_pos (by rfl), hdrop]
    · rw [oneBackslash]
      rintro rest heq
      exact hc (List.cons.inj heq).1

theorem map_oneBackslash {flags : List Text} (h : ∀ flag ∈ flags, ¬['\\', '\\'] <+: flag) :
    flags.map oneBackslash = flags := by
  rw [List.map_congr_left fun flag hflag => oneBackslash_of_not (h flag hflag), List.map_id']

theorem action_strings (name : Text) (list : StrList) :
    Command.action ⟨name, [.strings list]⟩ = actionOf name false list.items := by
  rw [← List.append_nil list.items]
  rfl

theorem action_copy (name : Text) (list : StrList) :
    Command.action ⟨name, [.tag "copy".toList, .strings list]⟩ = actionOf name true list.items := by
  rw [← List.append_nil list.items]
  rfl

theorem actionOf_fileinto (copy : Bool) (strs : List Text) :
    actionOf "fileinto".toList copy strs = if strs.isEmpty then none
      else some { type := .fileinto, mailbox := some (joinComma strs), copy := some copy } := rfl

theorem actionOf_flags {type : SieveActionType}
    (htype : type = .setflag ∨ type = .addflag ∨ type = .removeflag) (copy : Bool)
    (strs : List Text) : actionOf type.word copy strs = if strs.isEmpty then none
      else some { type := type, flag := some (joinComma (strs.map oneBackslash)) } := by
  obtain rfl | rfl | rfl := htype
  · rfl
  · rfl
  · rfl

/-- **An action that has its arguments comes back.** -/
theorem SieveAction.back {a : SieveAction} (h : a.Argued) :
    ∃ command, a.toCommand = some command ∧ command.action = some a.normal := by
  obtain ⟨type, mailbox, copy, address, text, flag⟩ := a
  cases type with
  | fileinto =>
    obtain ⟨hempty, -⟩ | ⟨hne, list, hlist, hitems, -⟩ := cases_listOf (splitList mailbox)
    · exact absurd (List.isEmpty_iff.mp hempty) h
    · by_cases hcopy : copy = some true
      · subst hcopy
        refine ⟨⟨"fileinto".toList, [.tag "copy".toList, .strings list]⟩, ?_, ?_⟩
        · rw [toCommand, hlist]
          rfl
        · rw [action_copy, hitems, actionOf_fileinto, hne]
          rfl
      · have hfalse : (copy == some true) = false := by simpa using hcopy
        refine ⟨⟨"fileinto".toList, [.strings list]⟩, ?_, ?_⟩
        · rw [toCommand, hlist]
          dsimp only
          rw [if_neg hcopy]
          rfl
        · rw [action_strings, hitems, actionOf_fileinto, hne, normal, hfalse]
          rfl
  | redirect =>
    obtain ⟨c, s, hs⟩ := List.exists_cons_of_ne_nil (show address.getD [] ≠ [] from h)
    obtain _ | address := address
    · cases hs
    · obtain rfl : address = c :: s := hs
      exact ⟨_, rfl, rfl⟩
  | reject =>
    obtain ⟨c, s, hs⟩ := List.exists_cons_of_ne_nil (show text.getD [] ≠ [] from h)
    obtain _ | text := text
    · cases hs
    · obtain rfl : text = c :: s := hs
      exact ⟨_, rfl, rfl⟩
  | discard | keep | stop => exact ⟨_, rfl, rfl⟩
  | setflag | addflag | removeflag =>
    obtain ⟨hflags, hslash⟩ := h
    obtain ⟨hempty, -⟩ | ⟨hne, list, hlist, hitems, -⟩ := cases_listOf (splitList flag)
    · exact absurd (List.isEmpty_iff.mp hempty) hflags
    · refine ⟨⟨_, [.strings list]⟩, by rw [toCommand, hlist]; rfl, ?_⟩
      rw [action_strings, hitems, actionOf_flags (by simp), hne, map_oneBackslash hslash]
      rfl

/-! ## Rules -/

/-- The rule as it comes back. -/
def SieveRule.normal (rule : SieveRule) : SieveRule where
  name := rule.name
  enabled := true
  conditionJoin := if rule.conditions.length = 1 then .allof else rule.conditionJoin
  conditions := rule.conditions.map SieveCondition.normal
  actions := rule.actions.map SieveAction.normal ++ if rule.addsStop then [{ type := .stop }] else []

theorem SieveRule.same_normal {rule : SieveRule} (h : rule.WellFormed) : rule.Same rule.normal where
  name := rfl
  enabled := h.enabled.symm
  join hlength := if_neg hlength
  conditions := by
    rw [normal, List.forall₂_map_right_iff, List.forall₂_same]
    exact fun c hc => SieveCondition.same_normal (h.conditions c hc)
  actions := by
    refine ⟨_, rfl, ?_⟩
    rw [List.forall₂_map_right_iff, List.forall₂_same]
    exact fun a _ => a.same_normal

/-- The test of a rule comes back as its conditions. -/
theorem SieveRule.test_back {rule : SieveRule} (h : rule.WellFormed) :
    ∃ test node, rule.content = [.ifThen test rule.commands] ∧
      (∀ block, (Statement.ifThen test block).plain = true) ∧ test.node 0 = some node ∧
      flattenTest node = some (rule.normal.conditionJoin, rule.normal.conditions) := by
  obtain ⟨pairs, hpairs⟩ := exists_backs h.conditions
  have htests := hpairs.mapM_toTest
  rw [content, htests, normal]
  generalize hconditions : rule.conditions = conditions at hpairs
  cases hpairs with
  | nil => exact absurd hconditions h.conditions_ne
  | @cons c pair conditions pairs hback hrest =>
    cases hrest with
    | nil => exact ⟨pair.1, pair.2, rfl, hback.entry, hback.node, hback.flat⟩
    | @cons d next conditions pairs hnext hrest =>
      have hmore : Backs (d :: conditions) (next :: pairs) := .cons hnext hrest
      have hall : Backs (c :: d :: conditions) (pair :: next :: pairs) := .cons hback hmore
      refine ⟨.group rule.conditionJoin pair.1 (next.1 :: pairs.map Prod.fst),
        .group rule.conditionJoin (pair.2 :: next.2 :: pairs.map Prod.snd), rfl, fun _ => ?_, ?_, ?_⟩
      · rw [Statement.plain, Test.plain, hback.plain, Bool.true_and]
        · exact hmore.allPlain
        · exact by simp
      · rw [Test.node, hback.node]
        have hnodes := hmore.nodes
        rw [List.map_cons] at hnodes
        rw [hnodes]
        rfl
      · have hflat := hall.flattenChildren rule.conditionJoin false
        rw [List.map_cons, List.map_cons] at hflat
        rw [flattenTest, show ((pair.2 :: next.2 :: pairs.map Prod.snd).length == 1) = false from by simp,
          hflat, if_neg (by simp)]
        rfl

/-- Its commands come back as its actions, with the `stop` that is added. -/
theorem SieveRule.commands_back {rule : SieveRule} (h : rule.WellFormed) :
    rule.commands.mapM Command.action = some rule.normal.actions := by
  rw [mapM_eq_some_iff, commands, normal]
  refine List.rel_append ?_ ?_
  · have hactions := h.actions
    generalize rule.actions = actions at hactions ⊢
    induction actions with
    | nil => exact .nil
    | cons a actions ih =>
      obtain ⟨command, hcommand, haction⟩ := SieveAction.back (hactions a List.mem_cons_self)
      rw [List.filterMap_cons, hcommand, List.map_cons]
      exact .cons haction (ih fun b hb => hactions b (List.mem_cons_of_mem a hb))
  · cases rule.addsStop with
    | false => exact .nil
    | true => exact .cons rfl .nil

/-- The name is found in the comment. -/
theorem ruleName_nameComment {name : Text} (hne : name ≠ []) (htrim : trim name = name)
    (hbracket : ']' ∉ name) (before : Nat) : ruleName (nameComment name) before = name := by
  have hinner : (name ++ "]".toList).takeWhile (· != ']') = name := by
    rw [List.takeWhile_append_of_pos]
    · exact List.append_nil name
    · intro c hc
      simpa using fun heq : c = ']' => hbracket (heq ▸ hc)
  have hmatch : matchName ('[' :: (name ++ "]".toList)) = some name := by
    have hrest : ('[' :: (name ++ "]".toList)).dropWhile isWhite = '[' :: (name ++ "]".toList) :=
      List.dropWhile_cons_of_neg (by decide)
    simp only [matchName, hrest, hinner]
    rw [if_pos hne]
  have hfound : nameMatch (nameComment name) = some name := by
    rw [nameComment_eq, show "rule:[".toList ++ name ++ "]".toList =
      'r' :: 'u' :: 'l' :: 'e' :: ':' :: '[' :: (name ++ "]".toList) from rfl, nameMatch]
    have hword : toLowerCase (('r' :: 'u' :: 'l' :: 'e' :: ':' :: '[' ::
        (name ++ "]".toList)).take 5) = "rule:".toList := rfl
    rw [if_pos hword]
    show (matchName ('[' :: (name ++ "]".toList))).or _ = _
    rw [hmatch]
    rfl
  rw [ruleName, hfound]
  exact htrim

/-- **A rule comes back.** -/
theorem SieveRule.back {rule : SieveRule} (h : rule.WellFormed) (rules : List SieveRule)
    (lastComment : Text) :
    readScript ⟨rules, lastComment⟩ rule.statements = some ⟨rules ++ [rule.normal], []⟩ ∧
      ∀ s ∈ rule.statements, s.plain = true := by
  obtain ⟨test, node, hcontent, hplain, hnode, hflat⟩ := rule.test_back h
  have hcomment : "rule:".toList.isPrefixOf (nameComment rule.name) = true := by
    rw [List.isPrefixOf_iff_prefix]
    exact ⟨'[' :: (rule.name ++ "]".toList), rfl⟩
  have hname := ruleName_nameComment h.name_ne h.name_trim h.name_bracket rules.length
  rw [statements, hcontent]
  constructor
  · rw [readScript, Statement.read, hcomment, if_pos rfl, Option.bind_some, readScript,
      Statement.read, hnode, rule.commands_back h]
    dsimp only
    rw [hflat, hname]
    rfl
  · simp only [List.forall_mem_cons]
    exact ⟨rfl, hplain _, by simp⟩

theorem readScript_append (script next : List Statement) : ∀ r : Reading,
    readScript r (script ++ next) = (readScript r script).bind fun r => readScript r next := by
  induction script with
  | nil => exact fun _ => rfl
  | cons s script ih =>
    intro r
    rw [List.cons_append, readScript, readScript, Option.bind_assoc]
    exact congrArg _ (funext fun r => ih r)

theorem rules_back {rules : List SieveRule} (h : ∀ rule ∈ rules, rule.WellFormed) :
    ∀ before, ∃ lastComment, readScript ⟨before, []⟩ (rules.flatMap SieveRule.statements) =
      some ⟨before ++ rules.map SieveRule.normal, lastComment⟩ := by
  induction rules with
  | nil => exact fun before => ⟨[], by rw [List.map_nil, List.append_nil]; rfl⟩
  | cons rule rules ih =>
    intro before
    obtain ⟨hrule, -⟩ := rule.back (h rule List.mem_cons_self) before []
    obtain ⟨lastComment, hrest⟩ := ih (fun other hother => h other (List.mem_cons_of_mem rule hother))
      (before ++ [rule.normal])
    refine ⟨lastComment, ?_⟩
    rw [List.flatMap_cons, readScript_append, hrule, Option.bind_some, hrest, List.append_assoc]
    rfl

theorem filter_enabled {rules : List SieveRule} (h : ∀ rule ∈ rules, rule.WellFormed) :
    rules.filter (·.enabled) = rules :=
  List.filter_eq_self.mpr fun rule hrule => (h rule hrule).enabled

/-- **Generated rules are parsed** to the rules as they come back. -/
theorem sieveToRules_generated {rules : List SieveRule} (hne : rules ≠ [])
    (h : ∀ rule ∈ rules, rule.WellFormed) :
    sieveToRules (rulesToSieve rules) = some (rules.map SieveRule.normal) := by
  have htoks := tokenize_generated rules fun rule hrule _ => (h rule hrule).name_line
  obtain ⟨lastComment, hrules⟩ := rules_back h []
  have hempty : rules.isEmpty = false := by simpa using hne
  have hread : readScript ⟨[], []⟩ (generated rules) =
      some ⟨rules.map SieveRule.normal, lastComment⟩ := by
    rw [generated, filter_enabled h, hempty, readScript, Statement.read,
      if_neg (by decide), Option.bind_some, readScript_append]
    have hrequire : readScript ⟨[], []⟩ (requireStatement (reqList rules)) = some ⟨[], []⟩ := by
      cases reqList rules <;> rfl
    rw [hrequire, Option.bind_some, if_neg Bool.false_ne_true, hrules, List.nil_append]
  have hplain : ∀ s ∈ generated rules, s.plain = true := by
    rw [generated, filter_enabled h, hempty, if_neg Bool.false_ne_true]
    refine List.forall_mem_cons.mpr ⟨rfl, fun s hs => ?_⟩
    obtain hs | hs := List.mem_append.mp hs
    · cases hreq : reqList rules with
      | nil =>
        rw [hreq] at hs
        cases hs
      | cons first rest =>
        rw [hreq] at hs
        obtain rfl := List.mem_singleton.mp hs
        rfl
    · obtain ⟨rule, hrule, hs⟩ := List.mem_flatMap.mp hs
      exact (rule.back (h rule hrule) [] []).2 s hs
  have hnotNil : (scriptTokens (generated rules)).isEmpty = false := by
    rw [generated, scriptTokens_cons]
    rfl
  have hmap : (rules.map SieveRule.normal).isEmpty = false := by simpa using hne
  rw [sieveToRules, htoks]
  dsimp only
  rw [hnotNil, if_neg Bool.false_ne_true, parse_script hread hplain]
  dsimp only
  rw [hmap, Bool.false_and, if_neg Bool.false_ne_true]

/-! ## The script again -/

theorem requires_normal (rules : List SieveRule) :
    requires (rules.map SieveRule.normal) = requires rules := by
  have hactions : ∀ (rule : SieveRule) (req : List Text),
      rule.normal.actions.foldl (fun req a => actionRequires a req) req =
        rule.actions.foldl (fun req a => actionRequires a req) req := by
    intro rule req
    have hstop : ∀ req, (if rule.addsStop then [({ type := .stop } : SieveAction)] else []).foldl
        (fun req a => actionRequires a req) req = req := by
      intro req
      cases rule.addsStop <;> rfl
    rw [SieveRule.normal, List.foldl_append, hstop, List.foldl_map]
    exact List.foldl_ext _ _ _ fun req a _ => a.actionRequires_normal req
  have hrules : ∀ (rules : List SieveRule) (req : List Text),
      ((rules.map SieveRule.normal).flatMap (·.actions)).foldl (fun req a => actionRequires a req)
        req = (rules.flatMap (·.actions)).foldl (fun req a => actionRequires a req) req := by
    intro rules
    induction rules with
    | nil => exact fun _ => rfl
    | cons rule rules ih =>
      intro req
      rw [List.map_cons, List.flatMap_cons, List.flatMap_cons, List.foldl_append, List.foldl_append,
        hactions, ih]
  exact hrules rules []

theorem scriptHead_normal (rules : List SieveRule) :
    scriptHead (rules.map SieveRule.normal) = scriptHead rules := by
  have hreq : reqList (rules.map SieveRule.normal) = reqList rules := by
    rw [reqList, reqList, requires_normal]
  rw [scriptHead_eq, scriptHead_eq, hreq]

/-- The `stop` that comes back is not added again. -/
theorem SieveRule.addsStop_normal (rule : SieveRule) : rule.normal.addsStop = false := by
  have htype : ∀ f : SieveActionType → Bool,
      rule.normal.actions.any (fun a => f a.type) =
        (rule.actions.any (fun a => f a.type) || (rule.addsStop && f .stop)) := by
    intro f
    have hany : (rule.actions.map SieveAction.normal).any (fun a => f a.type) =
        rule.actions.any (fun a => f a.type) := by
      rw [List.any_map]
      refine congrArg (List.any rule.actions) (funext fun a => ?_)
      exact congrArg f a.same_normal.type
    rw [normal, List.any_append, hany]
    cases rule.addsStop with
    | false => rfl
    | true => simp
  have hadds := htype (·.terminal)
  have hstop := htype (· == .stop)
  rw [addsStop, hadds, hstop]
  cases hrule : rule.addsStop with
  | false =>
    rw [addsStop] at hrule
    simpa using hrule
  | true => simp

theorem SieveRule.ruleBody_normal (rule : SieveRule) : ruleBody rule.normal = ruleBody rule := by
  rw [ruleBody, ruleBody, rule.addsStop_normal, if_neg Bool.false_ne_true, List.append_nil, normal,
    List.flatMap_append, List.flatMap_map]
  refine congr (congrArg _ (List.flatMap_congr fun a _ => ?_)) ?_
  · rw [a.actionToSieve_normal]
  · cases rule.addsStop <;> rfl

/-- How a single condition is joined does not show. -/
theorem SieveRule.ruleExpr_normal (rule : SieveRule) {tests : List Text} (hne : tests ≠ [])
    (hlength : tests.length ≤ rule.conditions.length) :
    ruleExpr rule.normal tests = ruleExpr rule tests := by
  obtain _ | ⟨first, _ | ⟨next, rest⟩⟩ := tests
  · exact absurd rfl hne
  · rfl
  · have hmany : rule.conditions.length ≠ 1 := by
      rw [List.length_cons, List.length_cons] at hlength
      omega
    have hjoin : rule.normal.conditionJoin = rule.conditionJoin := if_neg hmany
    unfold ruleExpr
    rw [hjoin]

theorem SieveRule.ruleContent_normal {rule : SieveRule} (h : rule.WellFormed) :
    ruleContent rule.normal = ruleContent rule := by
  have hconditions : rule.normal.conditions.map conditionTest = rule.conditions.map conditionTest := by
    rw [normal, List.map_map]
    exact List.map_congr_left fun c hc => SieveCondition.conditionTest_normal (h.conditions c hc)
  have hlength : (((rule.conditions.map conditionTest).filterMap id).filter
      fun t => !t.isEmpty).length ≤ rule.conditions.length := by
    refine (List.length_filter_le _ _).trans ((List.length_filterMap_le _ _).trans ?_)
    rw [List.length_map]
  rw [ruleContent, ruleContent, hconditions, rule.ruleBody_normal]
  generalize ((rule.conditions.map conditionTest).filterMap id).filter
    (fun t => !t.isEmpty) = realTests at hlength
  cases realTests with
  | nil => rfl
  | cons first rest =>
    dsimp only
    rw [rule.ruleExpr_normal (List.cons_ne_nil first rest) hlength]

theorem SieveRule.ruleToSieve_normal {rule : SieveRule} (h : rule.WellFormed) :
    ruleToSieve rule.normal = ruleToSieve rule := by
  rw [ruleToSieve_eq, ruleToSieve_eq, ruleContent_normal h]
  rfl

/-- **Rules that have come back** are written as the same script. -/
theorem rulesToSieve_normal {rules : List SieveRule} (h : ∀ rule ∈ rules, rule.WellFormed) :
    rulesToSieve (rules.map SieveRule.normal) = rulesToSieve rules := by
  have hnormal : (rules.map SieveRule.normal).filter (·.enabled) = rules.map SieveRule.normal := by
    refine List.filter_eq_self.mpr fun rule hrule => ?_
    obtain ⟨_, -, rfl⟩ := List.mem_map.mp hrule
    rfl
  have hscript : (rules.map SieveRule.normal).flatMap ruleToSieve = rules.flatMap ruleToSieve := by
    rw [List.flatMap_map]
    exact List.flatMap_congr fun rule hrule => SieveRule.ruleToSieve_normal (h rule hrule)
  rw [rulesToSieve_eq, rulesToSieve_eq, hnormal, filter_enabled h, scriptHead_normal, hscript,
    List.isEmpty_map]

/-! ## Round trip -/

/-- **Rules that are generated and parsed come back**, but for what their script does not
say, and are then written as the same script. -/
theorem roundTrip (rules : List SieveRule) (hne : rules ≠ [])
    (h : ∀ rule ∈ rules, rule.WellFormed) :
    ∃ rules', sieveToRules (rulesToSieve rules) = some rules' ∧
      List.Forall₂ SieveRule.Same rules rules' ∧ rulesToSieve rules' = rulesToSieve rules := by
  refine ⟨rules.map SieveRule.normal, sieveToRules_generated hne h, ?_, rulesToSieve_normal h⟩
  rw [List.forall₂_map_right_iff, List.forall₂_same]
  exact fun rule hrule => rule.same_normal (h rule hrule)

/-- A rule as the editor leaves it when its condition was one on an address before, and its
first action one that files the message. -/
def editedRule : SieveRule where
  name := "Lists".toList
  enabled := true
  conditionJoin := .anyof
  conditions := [⟨.headerTest, .domain, .containsOp, true, "List-Id, Subject".toList, "\"news\"".toList⟩]
  actions := [{ type := .keep, mailbox := some "INBOX".toList },
    { type := .fileinto, mailbox := some "News, Lists".toList },
    { type := .addflag, flag := some "\\Seen".toList }]

theorem wellFormed_editedRule : editedRule.WellFormed where
  enabled := rfl
  name_ne := by decide
  name_trim := by decide
  name_bracket := by decide
  name_line := by decide
  conditions_ne := by decide
  conditions := by
    refine List.forall_mem_cons.mpr ⟨?_, by simp⟩
    show splitList _ ≠ []
    decide
  actions := by
    refine List.forall_mem_cons.mpr ⟨trivial, List.forall_mem_cons.mpr ⟨?_,
      List.forall_mem_cons.mpr ⟨?_, by simp⟩⟩⟩
    · show splitList _ ≠ []
      decide
    · show splitList _ ≠ [] ∧ ∀ flag ∈ splitList _, ¬['\\', '\\'] <+: flag
      decide

theorem roundTrip_editedRule :
    ∃ rules', sieveToRules (rulesToSieve [editedRule]) = some rules' ∧
      List.Forall₂ SieveRule.Same [editedRule] rules' ∧
      rulesToSieve rules' = rulesToSieve [editedRule] :=
  roundTrip [editedRule] (List.cons_ne_nil _ _)
    (List.forall_mem_cons.mpr ⟨wellFormed_editedRule, by simp⟩)

/-- **What a rule does not use is not in its script**: the part of an address that a test
of a header still has is lost, and so is the mailbox that a `keep` has. -/
theorem editedRule_loses : editedRule.WellFormed ∧
    ∃ rules', sieveToRules (rulesToSieve [editedRule]) = some rules' ∧
      ¬List.Forall₂ (fun r s => r.conditions.map (·.part) = s.conditions.map (·.part))
        [editedRule] rules' ∧
      ¬List.Forall₂ (fun r s => r.actions.map (·.mailbox) <+: s.actions.map (·.mailbox))
        [editedRule] rules' := by
  refine ⟨wellFormed_editedRule, [editedRule.normal], by decide +kernel, ?_, ?_⟩
  · rw [List.forall₂_cons]
    exact fun h => absurd h.1 (by decide +kernel)
  · rw [List.forall₂_cons]
    exact fun h => absurd h.1 (by decide +kernel)

end E2Mail.Sieve
