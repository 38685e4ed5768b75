import E2Mail.Sieve.Syntax

/-!
# From a script to rules

`sieveToRules` reads a script by recursive descent and gives the rules that stand for
it, or `null`. A parser is a function on what is left of the tokens; it gives `null`
mostly after it has set `error`, which is what `parse` looks at in the end.

Each loop and recursion counts down, from a number that it does not reach the end of:
every turn takes a token.
-/

namespace E2Mail.Sieve

/-! ## The state of the parser -/

/-- `Parser`. -/
structure Parser where
  /-- `toks`, from `i` on -/
  toks : List Tok
  /-- `error` -/
  error : Bool
  deriving DecidableEq, Repr

namespace Parser

/-- The tokens after the comments that come first. -/
def skipped (p : Parser) : List Tok := p.toks.dropWhile fun t => t.k == .comment

/-- `peek`. -/
def peek (p : Parser) : Option Tok := p.skipped.head?

/-- `next`, but for its result. -/
def next (p : Parser) : Parser := { p with toks := p.skipped.tail }

/-- `this.error = true` -/
def fail (p : Parser) : Parser := { p with error := true }

end Parser

/-- A parser; `none` is `null`. -/
def Parse (α : Type) : Type := Parser → Option α × Parser

namespace Parse

/-- `return null` -/
def null {α : Type} : Parse α := fun p => (none, p)

/-- `this.error = true; return null` -/
def error {α : Type} : Parse α := fun p => (none, p.fail)

/-- `peek` -/
def peek : Parse (Option Tok) := fun p => (some p.peek, p)

/-- `next` -/
def next : Parse Unit := fun p => (some (), p.next)

/-- `this.error` -/
def hasError : Parse Bool := fun p => (some p.error, p)

/-- The result, `null` or not, is looked at. -/
def orNull {α : Type} (x : Parse α) : Parse (Option α) := fun p => (some (x p).1, (x p).2)

/-- How many turns a loop is given. -/
def fuel : Parse Nat := fun p => (some (p.toks.length + 1), p)

instance : Monad Parse where
  pure a := fun p => (some a, p)
  bind x f := fun p =>
    match x p with
    | (none, q) => (none, q)
    | (some a, q) => f a q

theorem bind_eq {α β : Type} (x : Parse α) (f : α → Parse β) (p : Parser) :
    (x >>= f) p = match x p with
      | (none, q) => (none, q)
      | (some a, q) => f a q := rfl

end Parse

open Parse (null error peek next hasError orNull fuel)

/-- The token is one of the characters. -/
def isPunct (t : Option Tok) (c : Char) : Bool := t == some (.punct c)

/-- `expectPunct`. -/
def expectPunct (c : Char) : Parse Unit := do
  if isPunct (← peek) c then next else error

/-! ## Strings -/

/-- The loop of `parseStringList`. -/
def parseItems : Nat → List Text → Parse (List Text)
  | 0, _ => error
  | turns + 1, items => do
    match ← peek with
    | some ⟨.quoted, v⟩ =>
      next
      let sep ← peek
      if isPunct sep ',' then
        next
        parseItems turns (items ++ [v])
      else if isPunct sep ']' then
        next
        return items ++ [v]
      else error
    | _ => error

/-- `parseStringList`. -/
def parseStringList : Parse (List Text) := do
  match ← peek with
  | some ⟨.quoted, v⟩ =>
    next
    return [v]
  | t =>
    if isPunct t '[' then
      next
      parseItems (← fuel) []
    else error

/-! ## Tests -/

/-- `SimpleTest`. -/
structure SimpleTest where
  /-- `test` -/
  test : SimpleKind
  /-- `part` -/
  part : Option SieveAddressPart
  /-- `op` -/
  op : SieveConditionOp
  /-- `negated` -/
  negated : Bool
  /-- `headers` -/
  headers : List Text
  /-- `values` -/
  values : List Text
  deriving DecidableEq, Repr

/-- `TestNode`; a group is an `all` or an `any`. -/
inductive TestNode
  | simple (s : SimpleTest)
  | group (join : Join) (children : List TestNode)
  | truth
  deriving Repr

/-- `':is'`, `':contains'`, `':matches'` -/
def tagOp (v : Text) : Option SieveConditionOp :=
  if v = ":is".toList then some .isOp
  else if v = ":contains".toList then some .containsOp
  else if v = ":matches".toList then some .matchesOp
  else none

/-- `':domain'`, `':localpart'`, `':user'`, `':all'` -/
def tagPart (v : Text) : Option SieveAddressPart :=
  if v = ":domain".toList then some .domain
  else if v = ":localpart".toList then some .localpart
  else if v = ":user".toList then some .user
  else if v = ":all".toList then some .whole
  else none

/-- `parseTestAnnotations`: the comparison, `is` if there is none, and the part of the
address. The string of a comparator is left out. -/
def parseTestAnnotations : Nat → Option SieveConditionOp → SieveAddressPart →
    Parse (SieveConditionOp × SieveAddressPart)
  | 0, _, _ => error
  | turns + 1, op, part => do
    match ← peek with
    | some ⟨.annot, v⟩ =>
      next
      match tagOp v, tagPart v with
      | some newOp, _ =>
        if op = none ∨ op = some newOp then parseTestAnnotations turns (some newOp) part else error
      | none, some newPart =>
        if part = .whole then parseTestAnnotations turns op newPart else error
      | none, none =>
        if v = ":comparator".toList then
          match ← peek with
          | some ⟨.quoted, _⟩ =>
            next
            parseTestAnnotations turns op part
          | _ => parseTestAnnotations turns op part
        else error
    | _ => return (op.getD .isOp, part)

/-- The token begins a list of strings. -/
def startsList (t : Option Tok) : Bool :=
  match t with
  | some ⟨.quoted, _⟩ => true
  | t => isPunct t '['

/-- The lists of strings of a test. -/
def parseLists : Nat → List (List Text) → Parse (List (List Text))
  | 0, _ => error
  | turns + 1, lists => do
    if startsList (← peek) then
      let list ← parseStringList
      parseLists turns (lists ++ [list])
    else return lists

/-- The headers and values of a test that has these lists of strings. -/
def headersAndValues : SimpleKind → List (List Text) → Option (List Text × List Text)
  | .existsTest, [headers] => some (headers, [])
  | .headerTest, [headers, values] =>
    if headers.isEmpty || values.isEmpty then none else some (headers, values)
  | .addressTest, [values] => if values.isEmpty then none else some ([], values)
  | .addressTest, [headers, values] => if values.isEmpty then none else some (headers, values)
  | _, _ => none

/-- `parseSimpleTest`. -/
def parseSimpleTest (kind : SimpleKind) : Parse SimpleTest := do
  next
  let annots ← parseTestAnnotations (← fuel) none .whole
  let lists ← parseLists (← fuel) []
  match headersAndValues kind lists with
  | none => error
  | some (headers, values) =>
    return {
      test := kind
      part := if kind = .addressTest then some annots.2 else none
      op := annots.1
      negated := false
      headers := headers
      values := values }

/-- `['header', 'address', 'exists'].includes` -/
def simpleKind (v : Text) : Option SimpleKind :=
  if v = "header".toList then some .headerTest
  else if v = "address".toList then some .addressTest
  else if v = "exists".toList then some .existsTest
  else none

/-- `allof` and `anyof`. -/
def joinOf (v : Text) : Option Join :=
  if v = "allof".toList then some .allof
  else if v = "anyof".toList then some .anyof
  else none

mutual

/-- `parseTest`. -/
def parseTest : Nat → Nat → Parse TestNode
  | 0, _ => error
  | turns + 1, negDepth => do
    match ← peek with
    | none => error
    | some t =>
      if t = .punct '(' then
        next
        let inner ← parseTest turns negDepth
        expectPunct ')'
        return inner
      else if t.k ≠ .word then error
      else if t.v = "true".toList then
        next
        return .truth
      else
        match simpleKind t.v with
        | some kind => return .simple (← parseSimpleTest kind)
        | none =>
          if t.v = "not".toList then
            next
            if 0 < negDepth then error
            else
              match ← orNull (parseTest turns (negDepth + 1)) with
              | some (.simple s) => return .simple { s with negated := true }
              | _ => error
          else
            match joinOf t.v with
            | none => error
            | some join =>
              next
              expectPunct '('
              let children ← parseChildren turns negDepth []
              expectPunct ')'
              return .group join children

/-- The loop of `parseTest` over the tests of a group. -/
def parseChildren : Nat → Nat → List TestNode → Parse (List TestNode)
  | 0, _, _ => error
  | turns + 1, negDepth, children => do
    let child ← parseTest turns negDepth
    if isPunct (← peek) ',' then
      next
      parseChildren turns negDepth (children ++ [child])
    else return children ++ [child]

end

/-- `parseTestEntry`. -/
def parseTestEntry : Parse TestNode := do
  match ← peek with
  | some ⟨.word, _⟩ => parseTest (← fuel) 0
  | _ => error

/-! ## Commands -/

/-- The loop of `parseCommand`: the tags and the strings up to the semicolon. -/
def parseArgs : Nat → List Text → List Text → Parse (List Text × List Text)
  | 0, _, _ => error
  | turns + 1, annots, strs => do
    match ← peek with
    | none => error
    | some t =>
      if t.k = .annot then
        next
        parseArgs turns (annots ++ [t.v]) strs
      else if startsList (some t) then
        let list ← parseStringList
        parseArgs turns annots (strs ++ list)
      else if t = .punct ';' then
        next
        return (annots, strs)
      else error

/-- `f.replace(/^\\+/, '\\')` -/
def oneBackslash (f : Text) : Text :=
  match f with
  | '\\' :: _ => '\\' :: f.dropWhile (· == '\\')
  | f => f

/-- `join(',')` -/
def joinComma (items : List Text) : Text := List.intercalate [','] items

/-- The action that a command with these strings becomes. -/
def actionOf (name : Text) (copy : Bool) (strs : List Text) : Option SieveAction :=
  if name = "fileinto".toList then
    if strs.isEmpty then none
    else some { type := .fileinto, mailbox := some (joinComma strs), copy := some copy }
  else if name = "redirect".toList then
    match strs with
    | [address] => some { type := .redirect, address := some address }
    | _ => none
  else if name = "reject".toList ∨ name = "ereject".toList then
    match strs with
    | [text] => some { type := .reject, text := some text }
    | _ => none
  else if name = "discard".toList then some { type := .discard }
  else if name = "keep".toList then some { type := .keep }
  else if name = "stop".toList then some { type := .stop }
  else
    let flag := some (joinComma (strs.map oneBackslash))
    if name = "setflag".toList then
      if strs.isEmpty then none else some { type := .setflag, flag := flag }
    else if name = "addflag".toList then
      if strs.isEmpty then none else some { type := .addflag, flag := flag }
    else if name = "removeflag".toList then
      if strs.isEmpty then none else some { type := .removeflag, flag := flag }
    else none

/-- `parseCommand`. -/
def parseCommand : Parse SieveAction := do
  match ← peek with
  | some ⟨.word, name⟩ =>
    next
    let args ← parseArgs (← fuel) [] []
    let copy := args.1.contains ":copy".toList
    if args.1.any (· != ":copy".toList) then error
    else
      match actionOf name copy args.2 with
      | none => error
      | some action => return action
  | _ =>
    next
    error

/-- `['if', 'elsif', 'else'].includes` -/
def startsIf (v : Text) : Bool := v == "if".toList || v == "elsif".toList || v == "else".toList

/-- The loop of `parseBlock`. At the end of the script it gives `null` without an error. -/
def parseBlockLoop : Nat → List SieveAction → Parse (List SieveAction × Bool)
  | 0, _ => error
  | turns + 1, actions => do
    if ← hasError then null
    else
      match ← peek with
      | none => null
      | some t =>
        if t = .punct '}' then
          next
          return (actions, false)
        else if t.k ≠ .word then error
        else if startsIf t.v then return (actions, true)
        else
          let cmd ← parseCommand
          parseBlockLoop turns (actions ++ [cmd])

/-- `parseBlock`: the actions, and whether there is a test among them. -/
def parseBlock : Parse (List SieveAction × Bool) := do
  expectPunct '{'
  parseBlockLoop (← fuel) []

/-! ## Tests as conditions -/

/-- `simpleToConditions`. -/
def simpleToConditions (s : SimpleTest) : List SieveCondition :=
  let values := if s.test = .existsTest then [[]] else s.values
  values.map fun v => {
    test := s.test.test
    part := s.part.getD .whole
    op := s.op
    negated := s.negated
    header := joinComma s.headers
    value := v }

/-- The condition for `true`. -/
def trueCondition : SieveCondition := ⟨.trueTest, .whole, .isOp, false, [], []⟩

mutual

/-- `flattenTest`. -/
def flattenTest : TestNode → Option (Join × List SieveCondition)
  | .truth => some (.allof, [trueCondition])
  | .simple s =>
    let conds := simpleToConditions s
    some (if 1 < conds.length then .anyof else .allof, conds)
  | .group join children =>
    (flattenChildren join (children.length == 1) children).map fun acc => (join, acc)

/-- The loop of `flattenTest` over the tests of a group; `only` says that there is one. -/
def flattenChildren (join : Join) (only : Bool) : List TestNode → Option (List SieveCondition)
  | [] => some []
  | child :: rest =>
    match flattenTest child with
    | none => none
    | some (childJoin, conds) =>
      if 1 < conds.length ∧ childJoin = .allof then none
      else
        match join with
        | .anyof =>
          if childJoin = .allof ∨ only then (flattenChildren join only rest).map (conds ++ ·)
          else none
        | .allof =>
          match conds with
          | [cond] => (flattenChildren join only rest).map (cond :: ·)
          | _ => none

end

/-! ## The script -/

/-- The body of `/rule:\s*\[?([^\]]+)\]?/i` after `rule:`: what the group matches. White
space and the bracket are given back if nothing is left for the group. -/
def matchName (body : Text) : Option Text :=
  let rest := body.dropWhile isWhite
  let inner :=
    match rest with
    | '[' :: s => s.takeWhile (· != ']')
    | _ => []
  if inner ≠ [] then some inner
  else if rest.takeWhile (· != ']') ≠ [] then some (rest.takeWhile (· != ']'))
  else (body.takeWhile isWhite).getLast?.map fun w => [w]

/-- The first match of the expression. -/
def nameMatch : Text → Option Text
  | [] => none
  | c :: s =>
    if toLowerCase ((c :: s).take 5) = "rule:".toList then
      (matchName ((c :: s).drop 5)).or (nameMatch s)
    else nameMatch s

/-- `name`, with so many rules before. -/
def ruleName (lastComment : Text) (before : Nat) : Text :=
  match nameMatch lastComment with
  | some name => trim name
  | none => "Rule ".toList ++ Nat.toDigits 10 (before + 1)

/-- The rule for a command outside of tests. -/
def unconditional (cmd : SieveAction) : SieveRule :=
  ⟨"Unconditional actions".toList, true, .allof, [], [cmd]⟩

/-- The loop of `parse`: the rules, and the parser where it has left the loop. -/
def parseLoop : Nat → List SieveRule → Text → Parser → List SieveRule × Parser
  | 0, rules, _, p => (rules, p.fail)
  | turns + 1, rules, lastComment, p =>
    if p.error then (rules, p)
    else
      match p.toks, p.peek with
      | rawAt :: rest, some t =>
        if rawAt.k = .comment then
          parseLoop turns rules
            (if "rule:".toList.isPrefixOf rawAt.v then rawAt.v else lastComment)
            { p with toks := rest }
        else if t = .word "require".toList then
          match parseStringList p.next with
          | (none, p) => (rules, p)
          | (some _, p) =>
            parseLoop turns rules lastComment (if isPunct p.peek ';' then p.next else p)
        else if t = .word "if".toList then
          match parseTestEntry p.next with
          | (none, p) => (rules, p)
          | (some expr, p) =>
            match parseBlock p with
            | (none, p) => (rules, p)
            | (some (actions, nested), p) =>
              if p.peek = some (.word "elsif".toList) ∨ p.peek = some (.word "else".toList) ∨
                  nested then
                (rules, p.fail)
              else
                match flattenTest expr with
                | none => (rules, p.fail)
                | some (join, conds) =>
                  parseLoop turns (rules ++ [⟨ruleName lastComment rules.length, true, join, conds,
                    actions⟩]) [] p
        else if t.k = .word then
          match parseCommand p with
          | (none, p) => (rules, p)
          | (some cmd, p) => parseLoop turns (rules ++ [unconditional cmd]) lastComment p
        else (rules, p.fail)
      | _, _ => (rules, p)

/-- `parse`. -/
def parse (toks : List Tok) : Option (List SieveRule) :=
  let res := parseLoop (toks.length + 1) [] [] ⟨toks, false⟩
  if res.2.error then none else some res.1

/-- White space, `if` and white space come first. -/
def beginsWithIf (s : Text) : Bool :=
  match s.dropWhile isWhite with
  | i :: f :: w :: _ => i.toLower == 'i' && f.toLower == 'f' && isWhite w
  | _ => false

/-- `/(^|\n)\s*if\s/i.test` -/
def mentionsIf (s : Text) : Bool :=
  beginsWithIf s || s.tails.any fun
    | '\n' :: rest => beginsWithIf rest
    | _ => false

/-- `sieveToRules`. -/
def sieveToRules (sieve : Text) : Option (List SieveRule) :=
  match tokenize sieve with
  | none => none
  | some toks =>
    if toks.isEmpty then none
    else
      match parse toks with
      | none => none
      | some rules => if rules.isEmpty && mentionsIf sieve then none else some rules

end E2Mail.Sieve
