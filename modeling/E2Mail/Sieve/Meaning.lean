import E2Mail.Sieve.Parser

/-!
# What the parser makes of each part of a script

For each part of the syntax of a script, what the parser makes of it, or `none` where it
gives up: `Test.node`, `Command.action`, `Statement.read`. That the parser does make just
this of the tokens of the part is for the modules after this one.
-/

namespace E2Mail.Sieve

/-- The tags of a test, read from the left: the comparison and the part of the address. -/
def readTags : List TestTag → Option SieveConditionOp → SieveAddressPart →
    Option (SieveConditionOp × SieveAddressPart)
  | [], op, part => some (op.getD .isOp, part)
  | .comparator _ :: tags, op, part => readTags tags op part
  | .tag name :: tags, op, part =>
    match tagOp (':' :: name), tagPart (':' :: name) with
    | some newOp, _ => if op = none ∨ op = some newOp then readTags tags (some newOp) part else none
    | none, some newPart => if part = .whole then readTags tags op newPart else none
    | none, none => none

/-- A test with its arguments. -/
def simpleNode (kind : SimpleKind) (tags : List TestTag) (args : List StrList) :
    Option SimpleTest :=
  match readTags tags none .whole, headersAndValues kind (args.map StrList.items) with
  | some (op, part), some (headers, values) =>
    some ⟨kind, if kind = .addressTest then some part else none, op, false, headers, values⟩
  | _, _ => none

namespace Test

mutual

/-- The node of a test, with so many negations around it. -/
def node (negDepth : Nat) : Test → Option TestNode
  | truth => some .truth
  | simple kind tags args => (simpleNode kind tags args).map .simple
  | paren t => t.node negDepth
  | neg t =>
    if 0 < negDepth then none
    else
      match t.node (negDepth + 1) with
      | some (.simple s) => some (.simple { s with negated := true })
      | _ => none
  | group join first rest =>
    match first.node negDepth, nodes negDepth rest with
    | some child, some children => some (.group join (child :: children))
    | _, _ => none

/-- The nodes of several tests. -/
def nodes (negDepth : Nat) : List Test → Option (List TestNode)
  | [] => some []
  | t :: rest =>
    match t.node negDepth, nodes negDepth rest with
    | some child, some children => some (child :: children)
    | _, _ => none

end

end Test

/-- The tag is no comparator. -/
def TestTag.plain : TestTag → Bool
  | tag _ => true
  | comparator _ => false

namespace Test

mutual

/-- The test has no comparators. -/
def plain : Test → Bool
  | truth => true
  | simple _ tags _ => tags.all TestTag.plain
  | paren t => t.plain
  | neg t => t.plain
  | group _ first rest => first.plain && allPlain rest

/-- Nor have these. -/
def allPlain : List Test → Bool
  | [] => true
  | t :: rest => t.plain && allPlain rest

end

end Test

/-- The tags among the arguments of a command, with their colons. -/
def annotsOf (args : List Arg) : List Text :=
  args.filterMap fun
    | .tag name => some (':' :: name)
    | .strings _ => none

/-- The strings among them. -/
def strsOf (args : List Arg) : List Text :=
  args.flatMap fun
    | .tag _ => []
    | .strings list => list.items

/-- The action that a command becomes. -/
def Command.action (c : Command) : Option SieveAction :=
  if (annotsOf c.args).any (· != ":copy".toList) then none
  else actionOf c.name ((annotsOf c.args).contains ":copy".toList) (strsOf c.args)

/-- What `parse` has so far: the rules, and the last comment with a name. -/
structure Reading where
  /-- `rules` -/
  rules : List SieveRule
  /-- `lastComment` -/
  lastComment : Text

/-- What a statement adds to the rules. -/
def Statement.read (r : Reading) : Statement → Option Reading
  | comment v => some { r with lastComment := if "rule:".toList.isPrefixOf v then v else r.lastComment }
  | require _ _ => some r
  | command c => c.action.map fun a => { r with rules := r.rules ++ [unconditional a] }
  | ifThen test block =>
    match test.node 0, block.mapM Command.action with
    | some node, some actions =>
      (flattenTest node).map fun flat =>
        ⟨r.rules ++ [⟨ruleName r.lastComment r.rules.length, true, flat.1, flat.2, actions⟩], []⟩
    | _, _ => none

/-- What a script adds to them. -/
def readScript (r : Reading) : List Statement → Option Reading
  | [] => some r
  | s :: script => (s.read r).bind fun r => readScript r script

/-- A test that the parser takes after `if` as it is written: without comparators, and not
in parentheses as a whole. -/
def Statement.plain : Statement → Bool
  | ifThen (.paren _) _ => false
  | ifThen test _ => test.plain
  | _ => true

end E2Mail.Sieve
