import E2Mail.Sieve.RoundTrip
import E2Mail.Sieve.Sound

/-!
# Commands that come back

Each command of an accepted script becomes an action under its own test, and each of the
commands that `Kept` describes is written again as a command that says the same. What is
meant to change: `ereject` is written as `reject`, an empty reason as `Rejected`, and
several backslashes in front of a flag as one.

* `Command.Representable` — the commands there is an action for;
* `Command.said_kept` — what is written for a command;
* `commands_carried` — whole scripts.
-/

namespace E2Mail.Sieve

open Lib.Text

/-! ## What a command says -/

/-- The strings of a command, list by list. -/
def listsOf (args : List Arg) : List (List Text) :=
  args.filterMap fun
    | .tag _ => none
    | .strings list => some list.items

/-- What a command says. -/
structure Said where
  /-- its name -/
  name : Text
  /-- it has the tag `:copy` -/
  copy : Bool
  /-- its strings, list by list -/
  lists : List (List Text)
  deriving DecidableEq

/-- What the command says. -/
def Command.said (c : Command) : Said :=
  ⟨c.name, (annotsOf c.args).contains ":copy".toList, listsOf c.args⟩

/-- The actions on flags. -/
def flagNames : List Text := ["setflag".toList, "addflag".toList, "removeflag".toList]

/-- What is said in its place: a refusal at once is a refusal, a refusal has a text, and a
flag has one backslash in front. -/
def Said.settled (s : Said) : Said :=
  if s.name = "reject".toList ∨ s.name = "ereject".toList then
    ⟨"reject".toList, s.copy,
      s.lists.map fun list => list.map fun t => if t.isEmpty then "Rejected".toList else t⟩
  else if s.name ∈ flagNames then { s with lists := s.lists.map fun list => list.map oneBackslash }
  else s

/-- There is an action for the command: a known name, no other tag than `:copy`, and as
many strings as the action needs. -/
structure Command.Representable (c : Command) : Prop where
  /-- the name is one of an action -/
  name : c.name ∈ actionNames
  /-- all tags are `:copy` -/
  tags : ∀ tag ∈ annotsOf c.args, tag = ":copy".toList
  /-- an address or a reason is one string -/
  one : c.name ∈ ["redirect".toList, "reject".toList, "ereject".toList] →
    ∃ s, strsOf c.args = [s]
  /-- there is a mailbox, or a flag -/
  some : c.name ∈ "fileinto".toList :: flagNames → strsOf c.args ≠ []

/-- The rules can say all that the command says: `:copy` with `fileinto` only, nothing after
a bare command, an address that is not empty, and a single list of mailboxes or flags that
can stand between commas. -/
structure Command.Kept (c : Command) : Prop where
  /-- `:copy` -/
  copy : ":copy".toList ∈ annotsOf c.args → c.name = "fileinto".toList
  /-- nothing after a bare command -/
  bare : c.name ∈ ["discard".toList, "keep".toList, "stop".toList] → listsOf c.args = []
  /-- the address -/
  address : c.name = "redirect".toList → strsOf c.args ≠ [[]]
  /-- the mailboxes or flags -/
  items : c.name ∈ "fileinto".toList :: flagNames →
    ∃ list, listsOf c.args = [list] ∧ ∀ item ∈ list, IsItem item

theorem strsOf_eq (args : List Arg) : strsOf args = (listsOf args).flatten := by
  induction args with
  | nil => rfl
  | cons arg args ih =>
    rw [strsOf, List.flatMap_cons, ← strsOf, ih]
    cases arg <;> rfl

/-- A list is not empty. -/
theorem ne_nil_of_lists {args : List Arg} {list : List Text} (h : list ∈ listsOf args) :
    list ≠ [] := by
  obtain ⟨arg, -, harg⟩ := List.mem_filterMap.mp h
  cases arg with
  | tag name => cases harg
  | strings list =>
    obtain rfl := Option.some.inj harg
    cases list <;> simp [StrList.items]

/-- One string is one list. -/
theorem lists_of_one {args : List Arg} {s : Text} (h : strsOf args = [s]) : listsOf args = [[s]] := by
  rw [strsOf_eq] at h
  have hne : ∀ list ∈ listsOf args, list ≠ [] := fun list hlist => ne_nil_of_lists hlist
  generalize listsOf args = lists at h hne
  obtain _ | ⟨first, rest⟩ := lists
  · cases h
  · obtain _ | ⟨s', first⟩ := first
    · exact absurd rfl (hne [] List.mem_cons_self)
    · rw [List.flatten_cons, List.cons_append, List.cons.injEq] at h
      obtain ⟨rfl, hrest⟩ := h
      obtain ⟨rfl, hflat⟩ := List.append_eq_nil_iff.mp hrest
      obtain _ | ⟨next, rest⟩ := rest
      · rfl
      · have hnext : next = [] := List.flatten_eq_nil_iff.mp hflat next List.mem_cons_self
        exact absurd hnext (hne next (by simp))

/-! ## The action of a command -/

/-- The action that a command is, by the kind of its arguments. -/
inductive ActsAs (c : Command) : SieveAction → Prop
  | files (name : c.name = "fileinto".toList) (any : strsOf c.args ≠ []) :
    ActsAs c { type := .fileinto, mailbox := some (joinComma (strsOf c.args)),
               copy := some ((annotsOf c.args).contains ":copy".toList) }
  | redirects {address : Text} (name : c.name = "redirect".toList) (one : strsOf c.args = [address]) :
    ActsAs c { type := .redirect, address := some address }
  | rejects {text : Text} (name : c.name = "reject".toList ∨ c.name = "ereject".toList)
      (one : strsOf c.args = [text]) : ActsAs c { type := .reject, text := some text }
  | bare {type : SieveActionType} (kind : type = .discard ∨ type = .keep ∨ type = .stop)
      (name : c.name = type.word) : ActsAs c { type := type }
  | flags {type : SieveActionType} (kind : type = .setflag ∨ type = .addflag ∨ type = .removeflag)
      (name : c.name = type.word) (any : strsOf c.args ≠ []) :
    ActsAs c { type := type, flag := some (joinComma ((strsOf c.args).map oneBackslash)) }

theorem eq_one {strs : List Text} {f : Text → SieveAction} {a : SieveAction}
    (h : (match strs with
      | [s] => some (f s)
      | _ => none) = some a) : ∃ s, strs = [s] ∧ a = f s := by
  split at h
  · rename_i s
    exact ⟨s, rfl, (Option.some.inj h).symm⟩
  · cases h

theorem eq_any {strs : List Text} {b a : SieveAction}
    (h : (if strs.isEmpty then none else some b) = some a) : strs ≠ [] ∧ a = b := by
  split at h
  · cases h
  · rename_i hany
    exact ⟨by simpa using hany, (Option.some.inj h).symm⟩

/-- A command that has an action has no other tags than `:copy`, and the action is that of
its kind. -/
theorem acts_of_action {c : Command} {a : SieveAction} (h : c.action = some a) :
    (∀ tag ∈ annotsOf c.args, tag = ":copy".toList) ∧ ActsAs c a := by
  rw [Command.action] at h
  split at h
  · cases h
  · rename_i hcopy
    refine ⟨fun tag htag => ?_, ?_⟩
    · by_contra hne
      exact hcopy (List.any_eq_true.mpr ⟨tag, htag, by simpa using hne⟩)
    · have hname := mem_actionNames h
      obtain ⟨name, args⟩ := c
      simp only [actionNames, List.mem_cons, List.not_mem_nil, or_false] at hname
      obtain rfl | rfl | rfl | rfl | rfl | rfl | rfl | rfl | rfl | rfl := hname
      · obtain ⟨hany, rfl⟩ := eq_any h
        exact .files rfl hany
      · obtain ⟨s, hone, rfl⟩ := eq_one (f := fun s => { type := .redirect, address := some s }) h
        exact .redirects rfl hone
      · obtain ⟨s, hone, rfl⟩ := eq_one (f := fun s => { type := .reject, text := some s }) h
        exact .rejects (.inl rfl) hone
      · obtain ⟨s, hone, rfl⟩ := eq_one (f := fun s => { type := .reject, text := some s }) h
        exact .rejects (.inr rfl) hone
      · cases h
        exact .bare (.inl rfl) rfl
      · cases h
        exact .bare (.inr (.inl rfl)) rfl
      · cases h
        exact .bare (.inr (.inr rfl)) rfl
      · obtain ⟨hany, rfl⟩ := eq_any h
        exact .flags (.inl rfl) rfl hany
      · obtain ⟨hany, rfl⟩ := eq_any h
        exact .flags (.inr (.inl rfl)) rfl hany
      · obtain ⟨hany, rfl⟩ := eq_any h
        exact .flags (.inr (.inr rfl)) rfl hany

/-- **A command that has an action is representable.** -/
theorem Command.representable {c : Command} {a : SieveAction} (h : c.action = some a) :
    c.Representable := by
  obtain ⟨htags, hacts⟩ := acts_of_action h
  refine ⟨name_of_action h, htags, fun hone => ?_, fun hany => ?_⟩
  · cases hacts with
    | redirects _ hone | rejects _ hone => exact ⟨_, hone⟩
    | files hname _ =>
      rw [hname] at hone
      exact absurd hone (by decide)
    | bare kind hname | flags kind hname _ =>
      rw [hname] at hone
      obtain rfl | rfl | rfl := kind <;> exact absurd hone (by decide)
  · cases hacts with
    | files _ hany | flags _ _ hany => exact hany
    | redirects _ hone | rejects _ hone => simp [hone]
    | bare kind hname =>
      rw [hname] at hany
      obtain rfl | rfl | rfl := kind <;> exact absurd hany (by decide)

/-! ## The command written for an action -/

/-- A flag with fewer backslashes can still stand between commas. -/
theorem isItem_oneBackslash {flag : Text} (h : IsItem flag) : IsItem (oneBackslash flag) := by
  obtain ⟨hne, htrim, hcomma⟩ := h
  obtain _ | ⟨c, s⟩ := flag
  · exact absurd rfl hne
  · by_cases hc : c = '\\'
    · subst hc
      rw [oneBackslash]
      have hsuffix := List.dropWhile_suffix (l := '\\' :: s) (· == '\\')
      generalize ('\\' :: s).dropWhile (· == '\\') = rest at hsuffix
      refine ⟨List.cons_ne_nil _ _, ?_, ?_⟩
      · obtain rfl | ⟨more, d, rfl⟩ := List.eq_nil_or_concat rest
        · decide
        · rw [List.concat_eq_append] at hsuffix ⊢
          obtain ⟨front, hfront⟩ := hsuffix
          rw [← hfront, ← List.append_assoc] at htrim
          exact trimBy_ends (by decide) (last_trimBy htrim)
      · rw [List.mem_cons, not_or]
        exact ⟨by decide, fun hmem => hcomma (hsuffix.subset hmem)⟩
    · have heq : oneBackslash (c :: s) = c :: s := by
        rw [oneBackslash]
        rintro rest heq
        exact hc (List.cons.inj heq).1
      rw [heq]
      exact ⟨hne, htrim, hcomma⟩

theorem listOf_some {items : List Text} (h : items ≠ []) :
    ∃ list, listOf items = some list ∧ list.items = items := by
  obtain _ | ⟨first, rest⟩ := items
  · exact absurd rfl h
  · exact ⟨.of first rest, rfl, StrList.items_of first rest⟩

theorem settled_lists {name : Text} (h : name ∈ flagNames) (copy : Bool) (lists : List (List Text)) :
    Said.settled ⟨name, copy, lists⟩ = ⟨name, copy, lists.map fun list => list.map oneBackslash⟩ := by
  have hother : ¬(name = "reject".toList ∨ name = "ereject".toList) := by
    rintro (rfl | rfl) <;> exact absurd h (by decide)
  rw [Said.settled, if_neg hother, if_pos h]

theorem settled_other {name : Text} (h : name ∉ flagNames) (hreject : name ≠ "reject".toList)
    (hereject : name ≠ "ereject".toList) (copy : Bool) (lists : List (List Text)) :
    Said.settled ⟨name, copy, lists⟩ = ⟨name, copy, lists⟩ := by
  rw [Said.settled, if_neg (not_or.mpr ⟨hreject, hereject⟩), if_neg h]

/-- **A command that is kept** is written again as one that says the same. -/
theorem Command.said_kept {c : Command} {a : SieveAction} (ha : c.action = some a) (h : c.Kept) :
    ∃ written, a.toCommand = some written ∧ written.said = c.said.settled := by
  obtain ⟨htags, hacts⟩ := acts_of_action ha
  have hcopy : c.name ≠ "fileinto".toList → (annotsOf c.args).contains ":copy".toList = false := by
    intro hname
    by_contra hcopy
    exact hname (h.copy (by simpa using hcopy))
  cases hacts with
  | files hname hany =>
    obtain ⟨items, hlists, hitems⟩ := h.items (by simp [hname])
    have hstrs : strsOf c.args = items := by rw [strsOf_eq, hlists, List.flatten_singleton]
    obtain ⟨list, hlist, hsame⟩ := listOf_some (hstrs ▸ hany)
    rw [said, hname, settled_other (by decide) (by decide) (by decide), hlists, hstrs]
    rw [SieveAction.toCommand]
    dsimp only
    rw [splitList_joinComma hitems, hlist, Option.map_some]
    refine ⟨_, rfl, ?_⟩
    cases hc : (annotsOf c.args).contains ":copy".toList with
    | true => rw [← hsame]; rfl
    | false => rw [← hsame]; rfl
  | @redirects address hname hone =>
    have hne : address ≠ [] := fun hnil => h.address hname (by rw [hone, hnil])
    rw [said, hname, settled_other (by decide) (by decide) (by decide), lists_of_one hone,
      hcopy (by simp [hname])]
    obtain ⟨d, s, rfl⟩ := List.exists_cons_of_ne_nil hne
    exact ⟨_, rfl, rfl⟩
  | @rejects text hname hone =>
    have hsettled : c.said.settled = ⟨"reject".toList, false,
        [[if text.isEmpty then "Rejected".toList else text]]⟩ := by
      have hnot : c.name ≠ "fileinto".toList := by
        obtain hname | hname := hname <;> simp [hname]
      rw [said, Said.settled, if_pos hname, lists_of_one hone, hcopy hnot]
      rfl
    exact ⟨_, rfl, hsettled.symm⟩
  | @bare type kind hname =>
    have hlists : listsOf c.args = [] := by
      refine h.bare ?_
      rw [hname]
      obtain rfl | rfl | rfl := kind <;> decide
    have hnot : c.name ≠ "fileinto".toList := by
      rw [hname]
      obtain rfl | rfl | rfl := kind <;> decide
    rw [said, hlists, hcopy hnot, hname]
    obtain rfl | rfl | rfl := kind <;> exact ⟨_, rfl, by decide⟩
  | @flags type kind hname hany =>
    have hmem : c.name ∈ flagNames := by
      rw [hname]
      obtain rfl | rfl | rfl := kind <;> decide
    have hnot : c.name ≠ "fileinto".toList := by
      rw [hname]
      obtain rfl | rfl | rfl := kind <;> decide
    obtain ⟨items, hlists, hitems⟩ := h.items (List.mem_cons_of_mem _ hmem)
    have hstrs : strsOf c.args = items := by rw [strsOf_eq, hlists, List.flatten_singleton]
    have hflags : ∀ flag ∈ items.map oneBackslash, IsItem flag := by
      intro flag hflag
      obtain ⟨item, hitem, rfl⟩ := List.mem_map.mp hflag
      exact isItem_oneBackslash (hitems item hitem)
    have hmap : items.map oneBackslash ≠ [] := by
      rw [← hstrs]
      simpa using hany
    obtain ⟨list, hlist, hsame⟩ := listOf_some hmap
    rw [said, settled_lists hmem, hlists, hcopy hnot, hstrs, hname]
    refine ⟨⟨type.word, [.strings list]⟩, ?_, ?_⟩
    · obtain rfl | rfl | rfl := kind
      all_goals
        rw [SieveAction.toCommand]
        dsimp only
        rw [splitList_joinComma hflags, hlist]
        rfl
    · rw [List.map_singleton, ← hsame]
      rfl

/-! ## Whole scripts -/

/-- The commands of a statement that are actions, with the test that each stands under. -/
def Statement.commands : Statement → List (Option Test × Command)
  | .comment _ | .require _ _ => []
  | .command c => [(none, c)]
  | .ifThen test block => block.map fun c => (some test, c)

/-- The actions of a rule, with the conditions that each stands under. -/
def SieveRule.acts (rule : SieveRule) : List ((Join × List SieveCondition) × SieveAction) :=
  rule.actions.map fun a => ((rule.conditionJoin, rule.conditions), a)

/-- What the conditions of a rule are for a test, or without one. -/
def conditionsOf : Option Test → Option (Join × List SieveCondition)
  | none => some (.allof, [])
  | some test => (test.node 0).bind flattenTest

/-- What becomes of a command. -/
structure Carried (before : Option Test × Command)
    (after : (Join × List SieveCondition) × SieveAction) : Prop where
  /-- it stands under the conditions for its own test -/
  conditions : conditionsOf before.1 = some after.1
  /-- it is representable -/
  representable : before.2.Representable
  /-- if the rules can say all that it says, it is written again, to say the same -/
  same : before.2.Kept → ∃ text written, actionToSieve after.2 = some text ∧
    tokenize (text ++ [';']) = some (Command.tokens written) ∧ written.said = before.2.said.settled

theorem carried {test : Option Test} {conditions : Join × List SieveCondition} {c : Command}
    {a : SieveAction} (htest : conditionsOf test = some conditions) (ha : c.action = some a) :
    Carried (test, c) (conditions, a) := by
  refine ⟨htest, Command.representable ha, fun hkept => ?_⟩
  obtain ⟨written, hwritten, hsaid⟩ := Command.said_kept ha hkept
  have haction := writes_action a
  rw [hwritten] at haction
  dsimp only
  generalize actionToSieve a = s at haction ⊢
  cases haction with
  | some h => exact ⟨_, written, rfl, h.1.lex_eq, hsaid⟩

theorem carried_block {test : Option Test} {conditions : Join × List SieveCondition}
    (htest : conditionsOf test = some conditions) {block : List Command}
    {actions : List SieveAction} (h : Acts block actions) :
    List.Forall₂ Carried (block.map fun c => (test, c)) (actions.map fun a => (conditions, a)) := by
  rw [List.forall₂_map_left_iff, List.forall₂_map_right_iff]
  exact h.imp fun _ _ ha => carried htest ha

theorem acts_representable {block : List Command} {actions : List SieveAction}
    (h : Acts block actions) : ∀ c ∈ block, c.Representable := by
  induction h with
  | nil => simp
  | cons ha _ ih => exact List.forall_mem_cons.mpr ⟨Command.representable ha, ih⟩

/-- The commands of the statements are carried over, in order. -/
theorem Gives.carried {script : List Statement} {rules : List SieveRule} (h : Gives script rules) :
    List.Forall₂ Carried (script.flatMap Statement.commands) (rules.flatMap SieveRule.acts) := by
  induction h with
  | nil => exact .nil
  | require _ ih => exact ih
  | command act _ ih => exact .cons (Sieve.carried rfl act) ih
  | @ifThen test _ flat _ _ _ _ _ read flatten acts _ ih =>
    have htest : conditionsOf (some test) = some flat := by
      rw [conditionsOf, read, Option.bind_some, flatten]
    exact List.rel_append (carried_block htest acts) ih

/-- **What is accepted is carried over**: each command of the script becomes an action of
its own, in order, with the conditions of its own test, and there is no command that no
action stands for. Only a block that the script does not close is left out. -/
theorem commands_carried {sieve : Text} {rules : List SieveRule}
    (h : sieveToRules sieve = some rules) :
    ∃ toks script unclosed, tokenize sieve = some toks ∧
      codeOf toks = scriptTokens script ++ endTokens unclosed ∧
      List.Forall₂ Carried (script.flatMap Statement.commands) (rules.flatMap SieveRule.acts) ∧
      ∀ u ∈ unclosed, ∀ c ∈ u.block, c.Representable := by
  obtain ⟨toks, htoks, hparsed⟩ := parse_of_accepted h
  obtain ⟨script, unclosed, hcode, hgives, hread⟩ := parse_accepts hparsed
  refine ⟨toks, script, unclosed, htoks, hcode, hgives.carried, fun u hu c hc => ?_⟩
  obtain ⟨node, actions, -, hacts⟩ := hread u hu
  exact acts_representable hacts c hc

/-- A script that refuses large orders, and sets a flag on the rest. -/
def refuseScript : Text :=
  "if header :is \"Subject\" \"Order\" \x7b ereject \"\"; \x7d\nsetflag \"\\\\\\\\Seen\";".toList

theorem commands_carried_refuseScript : ∃ rules, sieveToRules refuseScript = some rules ∧
    ∃ toks script unclosed, tokenize refuseScript = some toks ∧
      codeOf toks = scriptTokens script ++ endTokens unclosed ∧
      List.Forall₂ Carried (script.flatMap Statement.commands) (rules.flatMap SieveRule.acts) ∧
      ∀ u ∈ unclosed, ∀ c ∈ u.block, c.Representable :=
  ⟨[⟨"Rule 1".toList, true, .allof, [⟨.headerTest, .whole, .isOp, false, "Subject".toList,
      "Order".toList⟩], [{ type := .reject, text := some [] }]⟩,
    unconditional { type := .setflag, flag := some "\\Seen".toList }], by decide +kernel,
    commands_carried (by decide +kernel)⟩

/-- **What is meant to change**: `ereject` and a flag with two backslashes are not written
again as they were. -/
theorem refuseScript_changes : ∃ refuse mark rules refuseText markText refused marked,
    tokenize refuseScript = some (scriptTokens [.ifThen (.simple .headerTest [.tag "is".toList]
      [.one "Subject".toList, .one "Order".toList]) [refuse], .command mark]) ∧
    sieveToRules refuseScript = some rules ∧
    (rules.flatMap (·.actions)).map actionToSieve = [some refuseText, some markText] ∧
    tokenize (refuseText ++ [';']) = some (Command.tokens refused) ∧ refused.said ≠ refuse.said ∧
    tokenize (markText ++ [';']) = some (Command.tokens marked) ∧ marked.said ≠ mark.said :=
  ⟨⟨"ereject".toList, [.strings (.one [])]⟩, ⟨"setflag".toList, [.strings (.one "\\\\Seen".toList)]⟩,
    [⟨"Rule 1".toList, true, .allof, [⟨.headerTest, .whole, .isOp, false, "Subject".toList,
      "Order".toList⟩], [{ type := .reject, text := some [] }]⟩,
    unconditional { type := .setflag, flag := some "\\Seen".toList }],
    "reject \"Rejected\"".toList, "setflag \"\\\\Seen\"".toList,
    ⟨"reject".toList, [.strings (.one "Rejected".toList)]⟩,
    ⟨"setflag".toList, [.strings (.one "\\Seen".toList)]⟩,
    by decide +kernel, by decide +kernel, by decide +kernel, by decide +kernel, by decide +kernel,
    by decide +kernel, by decide +kernel⟩

end E2Mail.Sieve
