import E2Mail.Sieve.Tokenizer
import Mathlib.Data.List.Forall2

/-!
# The syntax of scripts

A script as it is built up, apart from the text it is written in: statements with tests
and commands. `tokens` says which tokens each part is written with.
-/

namespace E2Mail.Sieve

/-- A string, or a list of them in brackets. -/
inductive StrList
  | one (s : Text)
  | many (first : Text) (rest : List Text)
  deriving DecidableEq, Repr

namespace StrList

/-- The strings, with those of a list in brackets as of one without. -/
def items : StrList → List Text
  | one s => [s]
  | many first rest => first :: rest

/-- The strings as `quoteListOrOne` writes them. -/
def of (first : Text) : List Text → StrList
  | [] => one first
  | next :: rest => many first (next :: rest)

/-- The tokens after the first item of a list. -/
def restTokens (rest : List Text) : List Tok :=
  rest.flatMap fun s => [.punct ',', .quoted s]

/-- The tokens. -/
def tokens : StrList → List Tok
  | one s => [.quoted s]
  | many first rest => .punct '[' :: .quoted first :: (restTokens rest ++ [.punct ']'])

@[simp] theorem items_one (s : Text) : (one s).items = [s] := rfl

@[simp] theorem items_of (first : Text) (rest : List Text) : (of first rest).items = first :: rest := by
  cases rest <;> rfl

end StrList

/-- A tag of a test: a plain one, or `:comparator` with the string after it. -/
inductive TestTag
  | tag (name : Text)
  | comparator (value : Option Text)
  deriving DecidableEq, Repr

/-- The tokens. -/
def TestTag.tokens : TestTag → List Tok
  | tag name => [.annot name]
  | comparator none => [.annot "comparator".toList]
  | comparator (some value) => [.annot "comparator".toList, .quoted value]

/-- The tests with arguments. -/
inductive SimpleKind
  | headerTest | addressTest | existsTest
  deriving DecidableEq, Repr

/-- The same as a test of a condition. -/
def SimpleKind.test : SimpleKind → SieveTestType
  | .headerTest => .headerTest
  | .addressTest => .addressTest
  | .existsTest => .existsTest

/-- The name in a script. -/
def SimpleKind.word (kind : SimpleKind) : Text := kind.test.word

/-- A test. -/
inductive Test
  | truth
  | simple (kind : SimpleKind) (tags : List TestTag) (args : List StrList)
  | paren (t : Test)
  | neg (t : Test)
  | group (join : Join) (first : Test) (rest : List Test)
  deriving Repr

namespace Test

mutual

/-- The tokens. -/
def tokens : Test → List Tok
  | truth => [.word "true".toList]
  | simple kind tags args =>
    .word kind.word :: (tags.flatMap TestTag.tokens ++ args.flatMap StrList.tokens)
  | paren t => .punct '(' :: (t.tokens ++ [.punct ')'])
  | neg t => .word "not".toList :: t.tokens
  | group join first rest =>
    .word join.word :: .punct '(' :: (first.tokens ++ restTokens rest ++ [.punct ')'])

/-- The tokens after the first test of a group. -/
def restTokens : List Test → List Tok
  | [] => []
  | t :: rest => .punct ',' :: (t.tokens ++ restTokens rest)

end

theorem tokens_ne_nil (t : Test) : t.tokens ≠ [] := by
  cases t <;> simp [tokens]

end Test

/-- An argument of a command. -/
inductive Arg
  | tag (name : Text)
  | strings (list : StrList)
  deriving DecidableEq, Repr

/-- The tokens. -/
def Arg.tokens : Arg → List Tok
  | tag name => [.annot name]
  | strings list => list.tokens

/-- A command with its arguments. -/
structure Command where
  /-- the name, in lower case -/
  name : Text
  /-- tags and strings, in order -/
  args : List Arg
  deriving DecidableEq, Repr

/-- The tokens, the semicolon included. -/
def Command.tokens (c : Command) : List Tok :=
  .word c.name :: (c.args.flatMap Arg.tokens ++ [.punct ';'])

/-- The tokens of the commands of a block, without the braces. -/
def blockTokens (block : List Command) : List Tok := block.flatMap Command.tokens

/-- A part of a script. -/
inductive Statement
  | comment (v : Text)
  | require (list : StrList) (semicolon : Bool)
  | command (c : Command)
  | ifThen (test : Test) (block : List Command)
  deriving Repr

/-- The tokens. -/
def Statement.tokens : Statement → List Tok
  | comment v => [.comment v]
  | require list semicolon =>
    .word "require".toList :: (list.tokens ++ if semicolon then [.punct ';'] else [])
  | command c => c.tokens
  | ifThen test block =>
    .word "if".toList :: (test.tokens ++ .punct '{' :: (blockTokens block ++ [.punct '}']))

/-- The tokens of a script. -/
def scriptTokens (script : List Statement) : List Tok := script.flatMap Statement.tokens

@[simp] theorem scriptTokens_nil : scriptTokens [] = [] := rfl

@[simp] theorem scriptTokens_cons (s : Statement) (script : List Statement) :
    scriptTokens (s :: script) = s.tokens ++ scriptTokens script := List.flatMap_cons

@[simp] theorem scriptTokens_append (script next : List Statement) :
    scriptTokens (script ++ next) = scriptTokens script ++ scriptTokens next :=
  List.flatMap_append

/-- A list is mapped to another if each of its members is. -/
theorem mapM_eq_some_iff {α β : Type} {f : α → Option β} {l : List α} {l' : List β} :
    l.mapM f = some l' ↔ List.Forall₂ (fun a b => f a = some b) l l' := by
  induction l generalizing l' with
  | nil =>
    rw [List.mapM_nil, List.forall₂_nil_left_iff]
    exact ⟨fun h => (Option.some.inj h).symm, fun h => h ▸ rfl⟩
  | cons a l ih =>
    rw [List.mapM_cons, List.forall₂_cons_left_iff]
    cases hfa : f a with
    | none =>
      constructor
      · intro h
        cases h
      · rintro ⟨b, rest, hb, -⟩
        cases hb
    | some b =>
      constructor
      · intro h
        change (l.mapM f).bind (fun rest => some (b :: rest)) = some l' at h
        obtain ⟨rest, hrest, heq⟩ := Option.bind_eq_some_iff.mp h
        exact ⟨b, rest, rfl, ih.mp hrest, (Option.some.inj heq).symm⟩
      · rintro ⟨b, rest, hb, hrest, rfl⟩
        obtain rfl := Option.some.inj hb
        rw [ih.mpr hrest]
        rfl

/-! ## Only comments are comments -/

/-- There is no comment among the tokens. -/
def NoComments (ts : List Tok) : Prop := ∀ t ∈ ts, t.k ≠ .comment

@[simp] theorem noComments_nil : NoComments [] := by simp [NoComments]

@[simp] theorem noComments_cons (t : Tok) (ts : List Tok) :
    NoComments (t :: ts) ↔ t.k ≠ .comment ∧ NoComments ts := by
  simp [NoComments]

@[simp] theorem noComments_append (ts us : List Tok) :
    NoComments (ts ++ us) ↔ NoComments ts ∧ NoComments us := by
  simp only [NoComments, List.mem_append]
  exact ⟨fun h => ⟨fun t ht => h t (.inl ht), fun t ht => h t (.inr ht)⟩,
    fun h t ht => ht.elim (h.1 t) (h.2 t)⟩

theorem noComments_flatMap {α : Type} {f : α → List Tok} {l : List α}
    (h : ∀ a ∈ l, NoComments (f a)) : NoComments (l.flatMap f) := by
  intro t ht
  obtain ⟨a, ha, hmem⟩ := List.mem_flatMap.mp ht
  exact h a ha t hmem

@[simp] theorem Tok.punct_k (c : Char) : (Tok.punct c).k = .punct := rfl
@[simp] theorem Tok.quoted_k (v : Text) : (Tok.quoted v).k = .quoted := rfl
@[simp] theorem Tok.word_k (v : Text) : (Tok.word v).k = .word := rfl
@[simp] theorem Tok.annot_k (v : Text) : (Tok.annot v).k = .annot := rfl
@[simp] theorem Tok.comment_k (v : Text) : (Tok.comment v).k = .comment := rfl

@[simp] theorem StrList.noComments_tokens (list : StrList) : NoComments list.tokens := by
  cases list with
  | one s => simp [StrList.tokens]
  | many first rest =>
    simp only [StrList.tokens, restTokens, noComments_cons, noComments_append]
    exact ⟨by simp, by simp, noComments_flatMap fun s _ => by simp, by simp⟩

@[simp] theorem TestTag.noComments_tokens (tag : TestTag) : NoComments tag.tokens := by
  rcases tag with name | value | value <;> simp [TestTag.tokens]

mutual

theorem Test.noComments_tokens : ∀ t : Test, NoComments t.tokens
  | .truth => by simp [Test.tokens]
  | .simple kind tags args => by
    simp only [Test.tokens, noComments_cons, noComments_append]
    exact ⟨by simp, noComments_flatMap fun _ _ => by simp, noComments_flatMap fun _ _ => by simp⟩
  | .paren t => by simp [Test.tokens, t.noComments_tokens]
  | .neg t => by simp [Test.tokens, t.noComments_tokens]
  | .group join first rest => by
    simp [Test.tokens, first.noComments_tokens, Test.noComments_restTokens rest]

theorem Test.noComments_restTokens : ∀ ts : List Test, NoComments (Test.restTokens ts)
  | [] => by simp [Test.restTokens]
  | t :: rest => by
    simp [Test.restTokens, t.noComments_tokens, Test.noComments_restTokens rest]

end

@[simp] theorem Arg.noComments_tokens (arg : Arg) : NoComments arg.tokens := by
  cases arg <;> simp [Arg.tokens]

@[simp] theorem Command.noComments_tokens (c : Command) : NoComments c.tokens := by
  simp only [Command.tokens, noComments_cons, noComments_append]
  exact ⟨by simp, noComments_flatMap fun _ _ => by simp, by simp⟩

theorem noComments_block (block : List Command) : NoComments (blockTokens block) :=
  noComments_flatMap fun c _ => c.noComments_tokens

end E2Mail.Sieve
