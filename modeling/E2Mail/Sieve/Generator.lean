import E2Mail.Sieve.Tokenizer

/-!
# From rules to a script

`rulesToSieve` writes the enabled rules as a Sieve script: a comment with the name of
each, its conditions as a test, its actions as commands.
-/

namespace E2Mail.Sieve

open Lib.Text

/-! ## Strings and lists -/

/-- `replace` of every occurrence of one character. -/
def replaceChar (c : Char) (new s : Text) : Text :=
  s.flatMap fun d => if d = c then new else [d]

/-- `esc`. -/
def esc (s : Text) : Text := replaceChar '"' ['\\', '"'] (replaceChar '\\' ['\\', '\\'] s)

/-- An escaped string between its quotes. -/
def quote (s : Text) : Text := '"' :: (esc s ++ ['"'])

/-- `quoteListOrOne`. -/
def quoteListOrOne : List Text → Text
  | [h] => quote h
  | items => '[' :: (List.intercalate [','] (items.map quote) ++ [']'])

/-- `splitList`: the nonempty parts between commas, trimmed. -/
def splitList : Option Text → List Text
  | none => []
  | some s =>
    if s.isEmpty then []
    else ((s.splitOn ',').map trim).filter fun item => !item.isEmpty

/-! ## Conditions and actions -/

/-- `actionRequires`: what has to be required for an action, besides what is already. -/
def actionRequires (a : SieveAction) (req : List Text) : List Text :=
  let req := if a.type = .fileinto then "fileinto".toList :: req else req
  let req := if a.type = .fileinto ∧ a.copy = some true then "copy".toList :: req else req
  let req := if a.type = .reject then "reject".toList :: req else req
  if a.type = .setflag ∨ a.type = .addflag ∨ a.type = .removeflag then
    "imap4flags".toList :: req
  else req

/-- `core` of `conditionTest`. -/
def conditionCore (c : SieveCondition) : Option Text :=
  match c.test with
  | .trueTest => some "true".toList
  | .existsTest =>
    let headers := splitList (some c.header)
    if headers.isEmpty then none else some ("exists ".toList ++ quoteListOrOne headers)
  | .addressTest =>
    let headers := splitList (some c.header)
    let part := if c.part = .whole then [] else ':' :: (c.part.word ++ " ".toList)
    let hl := if headers.isEmpty then [] else quoteListOrOne headers ++ " ".toList
    some ("address ".toList ++ part ++ ":".toList ++ c.op.word ++ " ".toList ++ hl ++
      quote c.value)
  | .headerTest =>
    let headers := splitList (some c.header)
    if headers.isEmpty then none
    else some ("header :".toList ++ c.op.word ++ " ".toList ++ quoteListOrOne headers ++
      " ".toList ++ quote c.value)

/-- `conditionTest`. -/
def conditionTest (c : SieveCondition) : Option Text :=
  (conditionCore c).map fun core => if c.negated then "not ".toList ++ core else core

/-- `a.text || 'Rejected'`. -/
def rejectText (a : SieveAction) : Text :=
  match a.text with
  | none => "Rejected".toList
  | some t => if t.isEmpty then "Rejected".toList else t

/-- `actionToSieve`. -/
def actionToSieve (a : SieveAction) : Option Text :=
  match a.type with
  | .fileinto =>
    let boxes := splitList a.mailbox
    if boxes.isEmpty then none
    else some ("fileinto".toList ++ (if a.copy = some true then " :copy".toList else []) ++
      " ".toList ++ quoteListOrOne boxes)
  | .redirect =>
    match a.address with
    | none => none
    | some address => if address.isEmpty then none else some ("redirect ".toList ++ quote address)
  | .reject => some ("reject ".toList ++ quote (rejectText a))
  | .discard => some "discard".toList
  | .keep => some "keep".toList
  | .stop => some "stop".toList
  | .setflag | .addflag | .removeflag =>
    let flags := splitList a.flag
    if flags.isEmpty then none
    else some (a.type.word ++ " ".toList ++ quoteListOrOne flags)

/-! ## Rules -/

/-- The actions after which a rule ends. -/
def SieveActionType.terminal : SieveActionType → Bool
  | .fileinto | .redirect | .discard | .reject => true
  | _ => false

/-- The rule ends with an action that asks for a `stop`, and has none. -/
def SieveRule.addsStop (rule : SieveRule) : Bool :=
  rule.actions.any (·.type.terminal) && !rule.actions.any (·.type == .stop)

/-- `body`: a line for each action, and the `stop` added. -/
def ruleBody (rule : SieveRule) : Text :=
  (rule.actions.flatMap fun a =>
    match actionToSieve a with
    | none => []
    | some s => "  ".toList ++ s ++ ";\n".toList) ++
  if rule.addsStop then "  stop;\n".toList else []

/-- `expr`: the test of a rule. -/
def ruleExpr (rule : SieveRule) : List Text → Text
  | [test] => test
  | realTests =>
    rule.conditionJoin.word ++ " (".toList ++ List.intercalate ", ".toList realTests ++
      ")".toList

/-- What a rule adds to the script after its comment: nothing if one of its conditions
cannot be written. -/
def ruleContent (rule : SieveRule) : Text :=
  let tests := rule.conditions.map conditionTest
  if tests.any (· == none) then []
  else
    let realTests := (tests.filterMap id).filter fun t => !t.isEmpty
    let body := ruleBody rule
    if realTests.isEmpty then (if body.isEmpty then "  keep;\n".toList else body)
    else "if ".toList ++ ruleExpr rule realTests ++ " \x7b\n".toList ++ body ++ "\x7d\n\n".toList

/-- One turn of the loop of `rulesToSieve`: what it adds to the script. -/
def ruleToSieve (rule : SieveRule) : Text :=
  "# rule:[".toList ++ rule.name ++ "]\n".toList ++ ruleContent rule

/-- `order`. -/
def requireOrder : List Text :=
  ["fileinto".toList, "imap4flags".toList, "copy".toList, "reject".toList]

/-- `req`, after the loop that fills it. -/
def requires (enabled : List SieveRule) : List Text :=
  (enabled.flatMap (·.actions)).foldl (fun req a => actionRequires a req) []

/-- `reqList`. -/
def reqList (enabled : List SieveRule) : List Text :=
  requireOrder.filter fun e => (requires enabled).contains e

/-- The lines before the rules. -/
def scriptHead (enabled : List SieveRule) : Text :=
  "# Generated by e2Mail Sieve Rule Builder\n".toList ++
  (if (reqList enabled).isEmpty then []
   else "require [".toList ++
      List.intercalate ",".toList ((reqList enabled).map fun r => '"' :: (r ++ ['"'])) ++
      "];\n".toList) ++
  "\n".toList

/-- `rulesToSieve`. -/
def rulesToSieve (rules : List SieveRule) : Text :=
  let enabled := rules.filter (·.enabled)
  scriptHead enabled ++
    if enabled.isEmpty then "# No rules defined\n".toList else enabled.flatMap ruleToSieve

end E2Mail.Sieve
