import E2Mail.Sieve.Pieces
import Mathlib.Data.List.Forall2
import Mathlib.Data.Option.Basic

/-!
# What a generated script says

The statements that `rulesToSieve` writes for a list of rules, and that the script it
writes is read back as just their tokens: `tokenize_rulesToSieve`.
-/

namespace E2Mail.Sieve

/-! ## The statements -/

/-- `quoteListOrOne`, unless there is nothing to write. -/
def listOf : List Text → Option StrList
  | [] => none
  | first :: rest => some (.of first rest)

/-- The test that a condition stands for, without its negation. -/
def SieveCondition.core (c : SieveCondition) : Option Test :=
  match c.test with
  | .trueTest => some .truth
  | .existsTest => (listOf (splitList (some c.header))).map fun headers =>
      .simple .existsTest [] [headers]
  | .addressTest =>
    let part := if c.part = .whole then [] else [TestTag.tag c.part.word]
    let headers := (listOf (splitList (some c.header))).toList
    some (.simple .addressTest (part ++ [.tag c.op.word]) (headers ++ [.one c.value]))
  | .headerTest => (listOf (splitList (some c.header))).map fun headers =>
      .simple .headerTest [.tag c.op.word] [headers, .one c.value]

/-- The test that a condition stands for. -/
def SieveCondition.toTest (c : SieveCondition) : Option Test :=
  c.core.map fun core => if c.negated then .neg core else core

/-- The command that an action stands for. -/
def SieveAction.toCommand (a : SieveAction) : Option Command :=
  match a.type with
  | .fileinto => (listOf (splitList a.mailbox)).map fun boxes =>
      ⟨a.type.word, (if a.copy = some true then [.tag "copy".toList] else []) ++ [.strings boxes]⟩
  | .redirect =>
    match a.address with
    | none => none
    | some address =>
      if address.isEmpty then none else some ⟨a.type.word, [.strings (.one address)]⟩
  | .reject => some ⟨a.type.word, [.strings (.one (rejectText a))]⟩
  | .discard | .keep | .stop => some ⟨a.type.word, []⟩
  | .setflag | .addflag | .removeflag => (listOf (splitList a.flag)).map fun flags =>
      ⟨a.type.word, [.strings flags]⟩

theorem SieveAction.toCommand_redirect {a : SieveAction} (h : a.type = .redirect) :
    a.toCommand = if (a.address.getD []).isEmpty then none
      else some ⟨a.type.word, [.strings (.one (a.address.getD []))]⟩ := by
  rw [SieveAction.toCommand, h]
  cases a.address <;> rfl

/-- The commands of a rule. -/
def SieveRule.commands (rule : SieveRule) : List Command :=
  rule.actions.filterMap SieveAction.toCommand ++
    if rule.addsStop then [⟨"stop".toList, []⟩] else []

/-- The comment with the name of a rule. -/
def nameComment (name : Text) : Text := "rule:[".toList ++ name ++ "]".toList

/-- The test of a rule with the tests of its conditions. -/
def joinTests (join : Join) (first : Test) : List Test → Test
  | [] => first
  | next :: rest => .group join first (next :: rest)

/-- The statements of a rule after its comment. -/
def SieveRule.content (rule : SieveRule) : List Statement :=
  match rule.conditions.mapM SieveCondition.toTest with
  | none => []
  | some [] =>
    (if rule.commands.isEmpty then [⟨"keep".toList, []⟩] else rule.commands).map .command
  | some (first :: rest) => [.ifThen (joinTests rule.conditionJoin first rest) rule.commands]

/-- The statements of a rule. -/
def SieveRule.statements (rule : SieveRule) : List Statement :=
  .comment (nameComment rule.name) :: rule.content

/-- The statement that requires the extensions, if there are any. -/
def requireStatement : List Text → List Statement
  | [] => []
  | first :: rest => [.require (.many first rest) true]

/-- The statements of a generated script. -/
def generated (rules : List SieveRule) : List Statement :=
  let enabled := rules.filter (·.enabled)
  .comment "Generated by e2Mail Sieve Rule Builder".toList ::
    (requireStatement (reqList enabled) ++
      if enabled.isEmpty then [.comment "No rules defined".toList]
      else enabled.flatMap SieveRule.statements)

/-! ## The text of a condition -/

open Lib.LexStep

variable {text : Text} {ts : List Tok}

theorem isTagName_op (op : SieveConditionOp) : isTagName op.word = true := by
  cases op <;> decide

theorem isTagName_part {part : SieveAddressPart} (h : part ≠ .whole) :
    isTagName part.word = true := by
  cases part with
  | whole => exact absurd rfl h
  | domain | localpart | user => decide

theorem stops_space (s : Text) : Stops isWordChar (' ' :: s) := by
  rw [stops_cons]
  rfl

/-- `quoteListOrOne` is not reached with an empty list. -/
theorem cases_listOf (items : List Text) :
    (items.isEmpty = true ∧ listOf items = none) ∨
      (items.isEmpty = false ∧ ∃ list, listOf items = some list ∧ list.items = items ∧
        ∀ {text ts}, Writes text ts → Writes (quoteListOrOne items ++ text) (list.tokens ++ ts)) := by
  cases items with
  | nil => exact .inl ⟨rfl, rfl⟩
  | cons first rest =>
    exact .inr ⟨rfl, .of first rest, rfl, StrList.items_of first rest, .strings first rest⟩

theorem isWord_kind (kind : SimpleKind) : isWord kind.word = true := by
  cases kind <;> decide

theorem writes_value (value : Text) : Writes (quote value) [.quoted value] := by
  have h := Writes.nil.quote value
  rwa [List.append_nil] at h

/-- **A condition**, but for its negation, is written as its test. -/
theorem writes_core (c : SieveCondition) :
    Option.Rel (fun text test => Writes text test.tokens) (conditionCore c) c.core := by
  have hvalue := writes_value c.value
  rw [conditionCore, SieveCondition.core]
  cases c.test with
  | trueTest =>
    have hword := Writes.nil.word (w := "true".toList) (by decide) stops_nil
    rw [List.append_nil] at hword
    exact .some hword
  | existsTest =>
    obtain ⟨hempty, hnone⟩ | ⟨hempty, list, hlist, -, hwrites⟩ :=
      cases_listOf (splitList (some c.header))
    · simp only [hempty, hnone, if_true, Option.map_none]
      exact .none
    · simp only [hempty, hlist, Option.map_some, Bool.false_eq_true, if_false]
      have h := (hwrites Writes.nil).space.word (isWord_kind .existsTest) (stops_space _)
      refine .some ?_
      rw [show "exists ".toList = SimpleKind.existsTest.word ++ [' '] from rfl]
      simpa only [Test.tokens, List.flatMap_nil, List.flatMap_cons, List.nil_append,
        List.append_nil, List.append_assoc, List.singleton_append] using h
  | addressTest =>
    -- the headers may be missing, and the part as well
    have hheaders : ∃ hl, (if (splitList (some c.header)).isEmpty then []
          else quoteListOrOne (splitList (some c.header)) ++ " ".toList) = hl ∧
        Writes (hl ++ quote c.value)
          (((listOf (splitList (some c.header))).toList ++ [StrList.one c.value]).flatMap
            StrList.tokens) := by
      refine ⟨_, rfl, ?_⟩
      obtain ⟨hempty, hnone⟩ | ⟨hempty, list, hlist, -, hwrites⟩ :=
        cases_listOf (splitList (some c.header))
      · simpa only [hempty, hnone, if_true, Option.toList_none, List.nil_append, List.flatMap_cons,
          List.flatMap_nil, List.append_nil, StrList.tokens] using hvalue
      · have h := hwrites hvalue.space
        simpa only [hempty, hlist, Bool.false_eq_true, if_false, Option.toList_some,
          List.flatMap_append, List.flatMap_cons, List.flatMap_nil, List.append_nil,
          StrList.tokens, List.append_assoc, show " ".toList = [' '] from rfl,
          List.singleton_append] using h
    obtain ⟨hl, heq, hwrites⟩ := hheaders
    have hop := hwrites.space.annot (isTagName_op c.op) (stops_space _)
    dsimp only
    rw [heq]
    refine .some ?_
    rw [show "address ".toList = SimpleKind.addressTest.word ++ [' '] from rfl,
      show ":".toList = [':'] from rfl, show " ".toList = [' '] from rfl]
    by_cases hpart : c.part = .whole
    · have h := hop.space.word (isWord_kind .addressTest) (stops_space _)
      simpa only [hpart, if_true, Test.tokens, List.flatMap_append, List.flatMap_cons,
        List.flatMap_nil, List.nil_append, List.append_nil, List.append_assoc,
        List.singleton_append, List.cons_append, TestTag.tokens] using h
    · have h := (hop.space.annot (isTagName_part hpart) (stops_space _)).space.word
        (isWord_kind .addressTest) (stops_space _)
      simpa only [hpart, if_false, Test.tokens, List.flatMap_append, List.flatMap_cons,
        List.flatMap_nil, List.nil_append, List.append_nil, List.append_assoc,
        List.singleton_append, List.cons_append, TestTag.tokens] using h
  | headerTest =>
    obtain ⟨hempty, hnone⟩ | ⟨hempty, list, hlist, -, hwrites⟩ :=
      cases_listOf (splitList (some c.header))
    · simp only [hempty, hnone, if_true, Option.map_none]
      exact .none
    · simp only [hempty, hlist, Option.map_some, Bool.false_eq_true, if_false]
      have h := ((hwrites hvalue.space).space.annot (isTagName_op c.op) (stops_space _)).space.word
        (isWord_kind .headerTest) (stops_space _)
      refine .some ?_
      rw [show "header :".toList = SimpleKind.headerTest.word ++ [' ', ':'] from rfl,
        show " ".toList = [' '] from rfl]
      simpa only [Test.tokens, List.flatMap_cons, List.flatMap_nil, List.nil_append,
        List.append_nil, List.append_assoc, List.singleton_append, List.cons_append,
        TestTag.tokens, StrList.tokens] using h

/-- **A condition** is written as its test. -/
theorem writes_condition (c : SieveCondition) :
    Option.Rel (fun text test => Writes text test.tokens) (conditionTest c) c.toTest := by
  have hcore := writes_core c
  rw [conditionTest, SieveCondition.toTest]
  generalize conditionCore c = core at hcore ⊢
  generalize c.core = test at hcore ⊢
  cases hcore with
  | none => exact .none
  | some h =>
    refine .some ?_
    cases c.negated with
    | false => exact h
    | true =>
      have hnot := h.space.word (w := "not".toList) (by decide) (stops_space _)
      dsimp only
      rw [if_pos rfl, if_pos rfl, show "not ".toList = "not".toList ++ [' '] from rfl]
      simpa only [Test.tokens, List.append_assoc, List.singleton_append] using hnot

/-! ## The text of an action -/

theorem isWord_action (type : SieveActionType) : isWord type.word = true := by
  cases type <;> decide

theorem writes_semicolon : Writes [';'] [.punct ';'] := Writes.nil.punct (c := ';') (by decide)

/-- A command without arguments, -/
theorem writes_bare (type : SieveActionType) :
    Writes (type.word ++ [';']) (Command.tokens ⟨type.word, []⟩) :=
  writes_semicolon.word (isWord_action type) (by rw [stops_cons]; rfl)

/-- with one string, -/
theorem writes_one (type : SieveActionType) (s : Text) :
    Writes (type.word ++ [' '] ++ quote s ++ [';'])
      (Command.tokens ⟨type.word, [.strings (.one s)]⟩) := by
  have h := (writes_semicolon.quote s).space.word (isWord_action type) (stops_space _)
  simpa only [Command.tokens, List.flatMap_cons, List.flatMap_nil, Arg.tokens, StrList.tokens,
    List.append_nil, List.append_assoc, List.singleton_append, List.cons_append,
      List.nil_append] using h

/-- and with a list of strings. -/
theorem writes_list (type : SieveActionType) {items : List Text} {list : StrList}
    (h : ∀ {text ts}, Writes text ts →
      Writes (quoteListOrOne items ++ text) (list.tokens ++ ts)) :
    Writes (type.word ++ [' '] ++ quoteListOrOne items ++ [';'])
      (Command.tokens ⟨type.word, [.strings list]⟩) := by
  have h := (h writes_semicolon).space.word (isWord_action type) (stops_space _)
  simpa only [Command.tokens, List.flatMap_cons, List.flatMap_nil, Arg.tokens,
    List.append_nil, List.append_assoc, List.singleton_append, List.cons_append,
      List.nil_append] using h

/-- What an action is written as begins with its name. -/
def WritesCommand (type : SieveActionType) (text : Text) (command : Command) : Prop :=
  Writes (text ++ [';']) command.tokens ∧ ∃ tail, text = type.word ++ tail

/-- **An action** is written as its command. -/
theorem writes_action (a : SieveAction) :
    Option.Rel (WritesCommand a.type) (actionToSieve a) a.toCommand := by
  rw [actionToSieve, SieveAction.toCommand]
  cases htype : a.type with
  | fileinto =>
    dsimp only
    obtain ⟨hempty, hnone⟩ | ⟨hempty, list, hlist, -, hwrites⟩ := cases_listOf (splitList a.mailbox)
    · simp only [hempty, hnone, if_true, Option.map_none]
      exact .none
    · simp only [hempty, hlist, Option.map_some, Bool.false_eq_true, if_false]
      refine .some ⟨?_, _, by rw [List.append_assoc, List.append_assoc]; rfl⟩
      by_cases hcopy : a.copy = some true
      · have h := ((hwrites writes_semicolon).space.annot (w := "copy".toList) (by decide)
          (stops_space _)).space.word (isWord_action .fileinto) (stops_space _)
        rw [if_pos hcopy, if_pos hcopy, show " :copy".toList = ' ' :: ':' :: "copy".toList from rfl,
          show " ".toList = [' '] from rfl,
          show "fileinto".toList = SieveActionType.fileinto.word from rfl]
        simpa only [Command.tokens, List.flatMap_append, List.flatMap_cons, List.flatMap_nil, Arg.tokens,
          List.append_nil, List.append_assoc, List.singleton_append, List.cons_append,
      List.nil_append] using h
      · rw [if_neg hcopy, if_neg hcopy, List.append_nil]
        exact writes_list .fileinto hwrites
  | redirect =>
    dsimp only
    cases a.address with
    | none => exact .none
    | some address =>
      cases hempty : address.isEmpty with
      | true =>
        simp only [hempty, if_true]
        exact .none
      | false =>
        simp only [hempty, Bool.false_eq_true, if_false]
        exact .some ⟨writes_one .redirect address, _, rfl⟩
  | reject => exact .some ⟨writes_one .reject (rejectText a), _, rfl⟩
  | discard => exact .some ⟨writes_bare .discard, _, (List.append_nil _).symm⟩
  | keep => exact .some ⟨writes_bare .keep, _, (List.append_nil _).symm⟩
  | stop => exact .some ⟨writes_bare .stop, _, (List.append_nil _).symm⟩
  | setflag | addflag | removeflag =>
    dsimp only
    obtain ⟨hempty, hnone⟩ | ⟨hempty, list, hlist, -, hwrites⟩ := cases_listOf (splitList a.flag)
    · simp only [hempty, hnone, if_true, Option.map_none]
      exact .none
    · simp only [hempty, hlist, Option.map_some, Bool.false_eq_true, if_false]
      exact .some ⟨writes_list _ hwrites, _, by rw [List.append_assoc]⟩

/-! ## The lines of a rule -/

/-- Lines of commands, as they stand in a block. -/
structure Lines (text : Text) (commands : List Command) : Prop where
  /-- they are read as the commands -/
  writes : ∀ {more : Text} {ts : List Tok}, Writes more ts →
    Writes (text ++ more) (blockTokens commands ++ ts)
  /-- there is text if there are commands -/
  empty : text.isEmpty = commands.isEmpty
  /-- the first of them is indented, and a letter comes next -/
  indented : text = [] ∨ ∃ c tail, text = ' ' :: ' ' :: c :: tail ∧ isWordStart c = true

theorem Lines.nil : Lines [] [] := ⟨fun h => h, rfl, .inl rfl⟩

theorem Lines.append {text more : Text} {commands next : List Command} (h : Lines text commands)
    (hmore : Lines more next) : Lines (text ++ more) (commands ++ next) := by
  refine ⟨fun hrest => ?_, ?_, ?_⟩
  · have hall := h.writes (hmore.writes hrest)
    simpa only [blockTokens, List.flatMap_append, List.append_assoc] using hall
  · have hempty := h.empty
    cases text with
    | nil =>
      obtain rfl := List.isEmpty_iff.mp hempty.symm
      exact hmore.empty
    | cons c text =>
      cases commands with
      | nil => cases hempty
      | cons command commands => rfl
  · obtain rfl | ⟨c, tail, rfl, hc⟩ := h.indented
    · exact hmore.indented
    · exact .inr ⟨c, tail ++ more, rfl, hc⟩

theorem Lines.one {type : SieveActionType} {s : Text} {command : Command}
    (h : WritesCommand type s command) : Lines ("  ".toList ++ s ++ ";\n".toList) [command] := by
  obtain ⟨hwrites, tail, rfl⟩ := h
  refine ⟨fun hrest => ?_, ?_, ?_⟩
  · have hline := (hwrites.append hrest.newline (by rw [stops_cons]; rfl)).space.space
    rw [show "  ".toList = [' ', ' '] from rfl, show ";\n".toList = [';', '\n'] from rfl]
    simpa only [blockTokens, List.flatMap_cons, List.flatMap_nil, List.append_nil,
      List.append_assoc, List.cons_append, List.nil_append] using hline
  · rw [show "  ".toList = [' ', ' '] from rfl]
    rfl
  · have hword : ∃ c s, type.word = c :: s ∧ isWordStart c = true := by
      cases type <;> exact ⟨_, _, rfl, by decide⟩
    obtain ⟨c, s, hword, hc⟩ := hword
    rw [hword]
    exact .inr ⟨c, _, rfl, hc⟩

/-- **The lines of a rule** are its commands. -/
theorem lines_ruleBody (rule : SieveRule) : Lines (ruleBody rule) rule.commands := by
  have hstop : Lines (if rule.addsStop then "  stop;\n".toList else [])
      (if rule.addsStop then [⟨"stop".toList, []⟩] else []) := by
    cases rule.addsStop with
    | false => exact Lines.nil
    | true =>
      have hbare : WritesCommand .stop "stop".toList ⟨"stop".toList, []⟩ :=
        ⟨writes_bare .stop, _, (List.append_nil _).symm⟩
      exact Lines.one hbare
  refine Lines.append ?_ hstop
  induction rule.actions with
  | nil => exact Lines.nil
  | cons a actions ih =>
    have haction := writes_action a
    rw [List.flatMap_cons, List.filterMap_cons]
    generalize actionToSieve a = written at haction ⊢
    generalize a.toCommand = command at haction ⊢
    cases haction with
    | none => exact ih
    | some h => exact (Lines.one h).append ih

/-! ## The test of a rule -/

theorem Writes.ne_nil {text : Text} {test : Test} (h : Writes text test.tokens) : text ≠ [] := by
  rintro rfl
  have heq := h.lex_eq
  rw [lex_nil] at heq
  exact test.tokens_ne_nil (Option.some.inj heq).symm

/-- The texts that the conditions of a rule are written as, and their tests. -/
theorem cases_tests (conditions : List SieveCondition) :
    ((conditions.map conditionTest).any (· == none) = true ∧
        conditions.mapM SieveCondition.toTest = none) ∨
      ∃ texts tests, conditions.map conditionTest = texts.map some ∧
        conditions.mapM SieveCondition.toTest = some tests ∧
        List.Forall₂ (fun text (test : Test) => Writes text test.tokens) texts tests := by
  induction conditions with
  | nil => exact .inr ⟨[], [], rfl, rfl, .nil⟩
  | cons c conditions ih =>
    have hc := writes_condition c
    rw [List.map_cons, List.mapM_cons]
    generalize conditionTest c = text at hc ⊢
    generalize c.toTest = test at hc ⊢
    cases hc with
    | none => exact .inl ⟨rfl, rfl⟩
    | some h =>
      obtain ⟨hany, hnone⟩ | ⟨texts, tests, htexts, htests, hwrites⟩ := ih
      · exact .inl ⟨by rw [List.any_cons, hany, Bool.or_true], by rw [hnone]; rfl⟩
      · exact .inr ⟨_ :: texts, _ :: tests, by rw [htexts]; rfl, by rw [htests]; rfl,
          .cons h hwrites⟩

theorem isWord_join (join : Join) : isWord join.word = true := by
  cases join <;> decide

theorem writes_restTests {texts : List Text} {tests : List Test}
    (h : List.Forall₂ (fun text (test : Test) => Writes text test.tokens) texts tests)
    (hmore : Writes text ts) (hstop : Stops isWordChar text) :
    Writes (texts.flatMap (", ".toList ++ ·) ++ text) (Test.restTokens tests ++ ts) ∧
      Stops isWordChar (texts.flatMap (", ".toList ++ ·) ++ text) := by
  induction h with
  | nil => exact ⟨by simpa [Test.restTokens] using hmore, hstop⟩
  | cons hfirst _ ih =>
    rw [show ", ".toList = [',', ' '] from rfl] at ih ⊢
    have hnext := (hfirst.append ih.1 ih.2).space.punct (c := ',') (by decide)
    rw [List.flatMap_cons]
    refine ⟨?_, by simp only [List.cons_append, stops_cons]; decide⟩
    simpa only [Test.restTokens, List.append_assoc, List.cons_append, List.nil_append] using hnext

/-- **The test of a rule** is that of its conditions, together. -/
theorem writes_ruleExpr (rule : SieveRule) {first : Text} {test : Test} {texts : List Text}
    {tests : List Test}
    (h : List.Forall₂ (fun text (test : Test) => Writes text test.tokens) (first :: texts)
      (test :: tests)) :
    Writes (ruleExpr rule (first :: texts)) (joinTests rule.conditionJoin test tests).tokens := by
  cases h with
  | cons hfirst hrest =>
    cases hrest with
    | nil => exact hfirst
    | cons hnext hrest =>
      have hend : Writes [')'] [.punct ')'] := Writes.nil.punct (c := ')') (by decide)
      obtain ⟨hwrites, hstop⟩ := writes_restTests (.cons hnext hrest) hend
        (by rw [stops_cons]; rfl)
      have hall := ((hfirst.append hwrites hstop).punct (c := '(') (by decide)).space.word
        (isWord_join rule.conditionJoin) (stops_space _)
      rw [ruleExpr, intercalate_cons, show " (".toList = [' ', '('] from rfl,
        show ")".toList = [')'] from rfl, joinTests, Test.tokens]
      simpa only [List.append_assoc, List.cons_append, List.nil_append] using hall
      intro _ hone
      cases hone

/-! ## The text of a rule, and of the whole script -/

theorem nameComment_eq (name : Text) :
    nameComment name = "rule:[".toList ++ name ++ "]".toList := rfl

theorem trim_nameComment (name : Text) : trim (' ' :: nameComment name) = nameComment name := by
  rw [trim_space]
  have hends := trimBy_ends (p := isWhite) (c := 'r') (d := ']') (s := "ule:[".toList ++ name)
    (by decide) (by decide)
  rw [nameComment_eq, show "rule:[".toList = 'r' :: "ule:[".toList from rfl]
  exact hends

theorem filterMap_id_map_some {α : Type} (l : List α) : (l.map some).filterMap id = l := by
  rw [List.filterMap_map]
  exact List.filterMap_some

/-- The comment line of a rule. -/
theorem writes_nameComment {name : Text} (hname : '\n' ∉ name) (h : Writes text ts) :
    Writes ("# rule:[".toList ++ name ++ "]\n".toList ++ text)
      (.comment (nameComment name) :: ts) := by
  have hline : '\n' ∉ ' ' :: nameComment name := by
    rw [nameComment_eq]
    simp only [List.mem_cons, List.mem_append, not_or]
    exact ⟨by decide, ⟨by decide, hname⟩, by decide⟩
  have hall := h.comment hline
  rw [trim_nameComment] at hall
  rw [show "# rule:[".toList = '#' :: ' ' :: "rule:[".toList from rfl,
    show "]\n".toList = "]".toList ++ ['\n'] from rfl]
  simpa only [nameComment_eq, List.append_assoc, List.cons_append, List.nil_append] using hall

/-- The commands of a rule without conditions. -/
theorem tokens_commands (commands : List Command) :
    scriptTokens (commands.map .command) = blockTokens commands := by
  rw [scriptTokens, List.flatMap_map, blockTokens]
  rfl

theorem noDigit_block (rule : SieveRule) (s : Text) :
    NoDigit ('\n' :: (ruleBody rule ++ '}' :: s)) := by
  obtain hnil | ⟨c, tail, hcons, hc⟩ := (lines_ruleBody rule).indented
  · rw [hnil]
    exact ⟨['\n'], '}', s, rfl, by decide, by decide, by decide⟩
  · rw [hcons]
    exact ⟨['\n', ' ', ' '], c, tail ++ '}' :: s, rfl, by decide, isWhite_of_wordStart hc,
      isDigit_of_wordStart hc⟩

theorem filter_written {texts : List Text} {tests : List Test}
    (h : List.Forall₂ (fun text (test : Test) => Writes text test.tokens) texts tests) :
    texts.filter (fun t => !t.isEmpty) = texts := by
  induction h with
  | nil => rfl
  | cons hfirst _ ih =>
    have hne := hfirst.ne_nil
    rw [List.filter_cons_of_pos (by simpa using hne), ih]

/-- The commands of a rule without conditions, or `keep`. -/
theorem writes_commands (rule : SieveRule) (h : Writes text ts) :
    Writes ((if (ruleBody rule).isEmpty then "  keep;\n".toList else ruleBody rule) ++ text)
      (scriptTokens ((if rule.commands.isEmpty then [⟨"keep".toList, []⟩]
        else rule.commands).map .command) ++ ts) := by
  have hlines := lines_ruleBody rule
  have hkeep : Lines "  keep;\n".toList [⟨"keep".toList, []⟩] :=
    Lines.one ⟨writes_bare .keep, _, (List.append_nil _).symm⟩
  rw [tokens_commands, hlines.empty]
  cases rule.commands.isEmpty with
  | true => exact hkeep.writes h
  | false => exact hlines.writes h

/-- A rule with conditions. -/
theorem writes_ifThen (rule : SieveRule) {first : Text} {test : Test} {texts : List Text}
    {tests : List Test}
    (hwrites : List.Forall₂ (fun text (test : Test) => Writes text test.tokens) (first :: texts)
      (test :: tests)) (h : Writes text ts) :
    Writes ("if ".toList ++ ruleExpr rule (first :: texts) ++ " \x7b\n".toList ++ ruleBody rule ++
        "\x7d\n\n".toList ++ text)
      ((Statement.ifThen (joinTests rule.conditionJoin test tests) rule.commands).tokens ++ ts) := by
  have hend := h.newline.newline.punct (c := '}') (by decide)
  have hblock := ((lines_ruleBody rule).writes hend).newline.brace (noDigit_block rule _)
  have hexpr := (writes_ruleExpr rule hwrites).append hblock.space (stops_space _)
  have hif := hexpr.space.word (w := "if".toList) (by decide) (stops_space _)
  rw [show "if ".toList = "if".toList ++ [' '] from rfl,
    show " \x7b\n".toList = [' ', '{', '\n'] from rfl,
    show "\x7d\n\n".toList = ['}', '\n', '\n'] from rfl]
  simpa only [Statement.tokens, List.append_assoc, List.cons_append, List.nil_append] using hif

theorem writes_content (rule : SieveRule) (h : Writes text ts) :
    Writes (ruleContent rule ++ text) (scriptTokens rule.content ++ ts) := by
  rw [ruleContent, SieveRule.content]
  obtain ⟨hany, hnone⟩ | ⟨texts, tests, htexts, htests, hwrites⟩ := cases_tests rule.conditions
  · rw [hany, if_pos rfl, hnone]
    exact h
  · have hnotAny : (texts.map some).any (· == none) = false := by
      rw [List.any_map, List.any_eq_false]
      intro text _
      exact Bool.false_ne_true
    rw [htests, htexts, hnotAny, if_neg Bool.false_ne_true, filterMap_id_map_some,
      filter_written hwrites]
    cases hwrites with
    | nil => exact writes_commands rule h
    | cons hfirst hrest =>
      have hif := writes_ifThen rule (.cons hfirst hrest) h
      dsimp only
      rw [List.isEmpty_cons, if_neg Bool.false_ne_true, scriptTokens, List.flatMap_singleton]
      exact hif

theorem ruleToSieve_eq (rule : SieveRule) :
    ruleToSieve rule = "# rule:[".toList ++ rule.name ++ "]\n".toList ++ ruleContent rule := rfl

/-- **A rule** is written as its statements. -/
theorem writes_rule (rule : SieveRule) (hname : '\n' ∉ rule.name) (h : Writes text ts) :
    Writes (ruleToSieve rule ++ text) (scriptTokens rule.statements ++ ts) := by
  have hcomment := writes_nameComment hname (writes_content rule h)
  rw [ruleToSieve_eq, List.append_assoc, SieveRule.statements, scriptTokens_cons, Statement.tokens,
    List.singleton_append, List.cons_append]
  exact hcomment

theorem writes_rules (enabled : List SieveRule) (hname : ∀ rule ∈ enabled, '\n' ∉ rule.name) :
    Writes (enabled.flatMap ruleToSieve) (scriptTokens (enabled.flatMap SieveRule.statements)) := by
  induction enabled with
  | nil => exact Writes.nil
  | cons rule enabled ih =>
    have hrest := ih fun other hother => hname other (List.mem_cons_of_mem rule hother)
    have h := writes_rule rule (hname rule List.mem_cons_self) hrest
    rw [List.flatMap_cons, List.flatMap_cons, scriptTokens_append]
    exact h

/-- The names of extensions need no escaping. -/
theorem quote_extension {r : Text} (hr : r ∈ requireOrder) : '"' :: (r ++ ['"']) = quote r := by
  rw [quote]
  congr 2
  revert r
  simp only [requireOrder, List.forall_mem_cons]
  exact ⟨by decide, by decide, by decide, by decide, by simp⟩

/-- What is required is written between quotes as it is. -/
theorem writes_require (exts : List Text) (hexts : ∀ r ∈ exts, r ∈ requireOrder)
    (h : Writes text ts) :
    Writes ((if exts.isEmpty then []
      else "require [".toList ++
        List.intercalate ",".toList (exts.map fun r => '"' :: (r ++ ['"'])) ++
        "];\n".toList) ++ text)
      (scriptTokens (requireStatement exts) ++ ts) := by
  cases exts with
  | nil => exact h
  | cons first rest =>
    have hquote : (first :: rest).map (fun r => '"' :: (r ++ ['"'])) = (first :: rest).map quote :=
      List.map_congr_left fun r hr => quote_extension (hexts r hr)
    have hend := (h.newline.punct (c := ';') (by decide)).punct (c := ']') (by decide)
    have hlist := ((writes_restItems rest hend).quote first).punct (c := '[') (by decide)
    have hall := hlist.space.word (w := "require".toList) (by decide) (stops_space _)
    rw [List.isEmpty_cons, if_neg Bool.false_ne_true, hquote, List.map_cons, intercalate_cons,
      show "require [".toList = "require".toList ++ [' ', '['] from rfl,
      show ",".toList = [','] from rfl, show "];\n".toList = [']', ';', '\n'] from rfl]
    simpa only [requireStatement, scriptTokens_cons, scriptTokens_nil, Statement.tokens,
      StrList.tokens, if_true, List.append_assoc, List.cons_append, List.nil_append,
      List.append_nil] using hall

theorem mem_reqList {enabled : List SieveRule} {r : Text} (h : r ∈ reqList enabled) :
    r ∈ requireOrder := (List.mem_filter.mp h).1

theorem scriptHead_eq (enabled : List SieveRule) :
    scriptHead enabled = '#' :: (" Generated by e2Mail Sieve Rule Builder".toList ++
      '\n' :: ((if (reqList enabled).isEmpty then []
        else "require [".toList ++
          List.intercalate ",".toList ((reqList enabled).map fun r => '"' :: (r ++ ['"'])) ++
          "];\n".toList) ++ ['\n'])) := by
  have hline : "# Generated by e2Mail Sieve Rule Builder\n".toList =
      '#' :: (" Generated by e2Mail Sieve Rule Builder".toList ++ ['\n']) := rfl
  have heq : scriptHead enabled = "# Generated by e2Mail Sieve Rule Builder\n".toList ++
      (if (reqList enabled).isEmpty then []
        else "require [".toList ++
          List.intercalate ",".toList ((reqList enabled).map fun r => '"' :: (r ++ ['"'])) ++
          "];\n".toList) ++ "\n".toList := rfl
  rw [heq, hline, show "\n".toList = ['\n'] from rfl]
  simp only [List.append_assoc, List.cons_append, List.nil_append]

theorem rulesToSieve_eq (rules : List SieveRule) :
    rulesToSieve rules = scriptHead (rules.filter (·.enabled)) ++
      if (rules.filter (·.enabled)).isEmpty then "# No rules defined\n".toList
      else (rules.filter (·.enabled)).flatMap ruleToSieve := rfl

theorem writes_noRules :
    Writes "# No rules defined\n".toList [.comment "No rules defined".toList] := by
  have hline : '\n' ∉ " No rules defined".toList := by decide
  have htrim : trim " No rules defined".toList = "No rules defined".toList := by decide
  have h := Writes.nil.comment hline
  rwa [htrim] at h

/-- **What is written is read back**: a generated script becomes the tokens of its
statements. -/
theorem tokenize_generated (rules : List SieveRule)
    (hname : ∀ rule ∈ rules, rule.enabled = true → '\n' ∉ rule.name) :
    tokenize (rulesToSieve rules) = some (scriptTokens (generated rules)) := by
  have hrules : Writes (if (rules.filter (·.enabled)).isEmpty then "# No rules defined\n".toList
        else (rules.filter (·.enabled)).flatMap ruleToSieve)
      (scriptTokens (if (rules.filter (·.enabled)).isEmpty
        then [.comment "No rules defined".toList]
        else (rules.filter (·.enabled)).flatMap SieveRule.statements)) := by
    cases (rules.filter (·.enabled)).isEmpty with
    | true => exact writes_noRules
    | false =>
      refine writes_rules _ fun rule hrule => ?_
      obtain ⟨hmem, henabled⟩ := List.mem_filter.mp hrule
      exact hname rule hmem henabled
  have hline : '\n' ∉ " Generated by e2Mail Sieve Rule Builder".toList := by decide
  have htrim : trim " Generated by e2Mail Sieve Rule Builder".toList =
      "Generated by e2Mail Sieve Rule Builder".toList := by decide
  have hall := (writes_require (reqList (rules.filter (·.enabled))) (fun r hr => mem_reqList hr)
    hrules.newline).comment hline
  rw [htrim] at hall
  have heq := hall.lex_eq
  rw [tokenize, rulesToSieve_eq, scriptHead_eq, generated, scriptTokens_cons, scriptTokens_append,
    Statement.tokens, List.singleton_append]
  simpa only [List.append_assoc, List.cons_append, List.nil_append] using heq

end E2Mail.Sieve
