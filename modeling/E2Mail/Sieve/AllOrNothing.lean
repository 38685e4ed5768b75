import E2Mail.Sieve.Sound

/-!
# All of a script or nothing

The editor writes the rules over the script that they were read from, so a script has to be read
as a whole. It is, but for one thing: at the end of a script inside of a block the parser gives
`null` without an error, and what comes before the open block is taken for the whole script.

* `Represented` — the tokens are those of statements, each with its rule;
* `Closed` — as many blocks are closed as are opened;
* `represented_iff_closed` — an accepted script is represented just if its blocks are closed.
-/

namespace E2Mail.Sieve

/-- The whole script is made of well-formed statements, comments apart, and each of them but
`require` is in the rules, in order. -/
def Represented (sieve : Text) (rules : List SieveRule) : Prop :=
  ∃ toks script, tokenize sieve = some toks ∧ codeOf toks = scriptTokens script ∧ Gives script rules

/-- As many blocks are closed as are opened. -/
def Closed (ts : List Tok) : Prop := ts.count (.punct '{') = ts.count (.punct '}')

instance (ts : List Tok) : Decidable (Closed ts) := inferInstanceAs (Decidable (_ = _))

/-! ## Braces -/

/-- There is no brace among the tokens. -/
def NoBraces (ts : List Tok) : Prop := .punct '{' ∉ ts ∧ .punct '}' ∉ ts

section Braces

variable {ts us : List Tok}

@[simp] theorem noBraces_nil : NoBraces [] := ⟨List.not_mem_nil, List.not_mem_nil⟩

@[simp] theorem noBraces_cons (t : Tok) :
    NoBraces (t :: ts) ↔ (.punct '{' ≠ t ∧ .punct '}' ≠ t) ∧ NoBraces ts := by
  simp only [NoBraces, List.mem_cons, not_or]
  exact and_and_and_comm

@[simp] theorem noBraces_append : NoBraces (ts ++ us) ↔ NoBraces ts ∧ NoBraces us := by
  simp only [NoBraces, List.mem_append, not_or]
  exact and_and_and_comm

theorem noBraces_flatMap {α : Type} {f : α → List Tok} {l : List α}
    (h : ∀ a ∈ l, NoBraces (f a)) : NoBraces (l.flatMap f) := by
  constructor
  · rintro hmem
    obtain ⟨a, ha, hin⟩ := List.mem_flatMap.mp hmem
    exact (h a ha).1 hin
  · rintro hmem
    obtain ⟨a, ha, hin⟩ := List.mem_flatMap.mp hmem
    exact (h a ha).2 hin

@[simp] theorem StrList.noBraces_tokens (list : StrList) : NoBraces list.tokens := by
  cases list with
  | one s => simp [StrList.tokens, Tok.punct, Tok.quoted]
  | many first rest =>
    simp only [StrList.tokens, restTokens, noBraces_cons, noBraces_append]
    refine ⟨by decide, by simp [Tok.punct, Tok.quoted], noBraces_flatMap fun s _ => ?_, by decide,
      noBraces_nil⟩
    simp [Tok.punct, Tok.quoted]

@[simp] theorem TestTag.noBraces_tokens (tag : TestTag) : NoBraces tag.tokens := by
  rcases tag with name | value | value <;>
    simp [TestTag.tokens, Tok.punct, Tok.quoted, Tok.annot]

mutual

theorem Test.noBraces_tokens : ∀ t : Test, NoBraces t.tokens
  | .truth => by simp [Test.tokens, Tok.punct, Tok.word]
  | .simple kind tags args => by
    simp only [Test.tokens, noBraces_cons, noBraces_append]
    exact ⟨by simp [Tok.punct, Tok.word], noBraces_flatMap fun _ _ => by simp,
      noBraces_flatMap fun _ _ => by simp⟩
  | .paren t => by simp [Test.tokens, t.noBraces_tokens, Tok.punct]
  | .neg t => by simp [Test.tokens, t.noBraces_tokens, Tok.punct, Tok.word]
  | .group join first rest => by
    simp [Test.tokens, first.noBraces_tokens, Test.noBraces_restTokens rest, Tok.punct, Tok.word]

theorem Test.noBraces_restTokens : ∀ ts : List Test, NoBraces (Test.restTokens ts)
  | [] => by simp [Test.restTokens]
  | t :: rest => by
    simp [Test.restTokens, t.noBraces_tokens, Test.noBraces_restTokens rest, Tok.punct]

end

@[simp] theorem Arg.noBraces_tokens (arg : Arg) : NoBraces arg.tokens := by
  cases arg <;> simp [Arg.tokens, Tok.punct, Tok.annot]

@[simp] theorem Command.noBraces_tokens (c : Command) : NoBraces c.tokens := by
  simp only [Command.tokens, noBraces_cons, noBraces_append]
  exact ⟨by simp [Tok.punct, Tok.word], noBraces_flatMap fun _ _ => by simp, by decide,
    noBraces_nil⟩

theorem noBraces_block (block : List Command) : NoBraces (blockTokens block) :=
  noBraces_flatMap fun c _ => c.noBraces_tokens

/-! ## Closed blocks -/

theorem NoBraces.count (h : NoBraces ts) :
    ts.count (.punct '{') = 0 ∧ ts.count (.punct '}') = 0 :=
  ⟨List.count_eq_zero.mpr h.1, List.count_eq_zero.mpr h.2⟩

theorem NoBraces.closed (h : NoBraces ts) : Closed ts := h.count.1.trans h.count.2.symm

theorem Closed.append (hts : Closed ts) (hus : Closed us) : Closed (ts ++ us) := by
  rw [Closed, List.count_append, List.count_append, hts, hus]

/-- A block that is closed. -/
theorem closed_braced (hts : NoBraces ts) : Closed (.punct '{' :: (ts ++ [.punct '}'])) := by
  rw [Closed, List.count_cons, List.count_cons, List.count_append, List.count_append, hts.count.1,
    hts.count.2]
  rfl

end Braces

/-- **Statements are closed.** -/
theorem Statement.closed (s : Statement) : Closed s.tokens := by
  cases s with
  | comment v => exact NoBraces.closed (by simp [tokens, Tok.punct, Tok.comment])
  | require list semicolon =>
    refine NoBraces.closed ?_
    simp only [tokens, noBraces_cons, noBraces_append]
    refine ⟨by decide, list.noBraces_tokens, ?_⟩
    cases semicolon
    · exact noBraces_nil
    · exact (noBraces_cons _).mpr ⟨by decide, noBraces_nil⟩
  | command c => exact c.noBraces_tokens.closed
  | ifThen test block =>
    have hhead : NoBraces (.word "if".toList :: test.tokens) :=
      (noBraces_cons _).mpr ⟨by decide, test.noBraces_tokens⟩
    exact hhead.closed.append (closed_braced (noBraces_block block))

theorem closed_script (script : List Statement) : Closed (scriptTokens script) := by
  induction script with
  | nil => rfl
  | cons s script ih =>
    rw [scriptTokens_cons]
    exact s.closed.append ih

/-- An open block is not closed by what stands before it. -/
theorem not_closed_unclosed (script : List Statement) (u : Unclosed) :
    ¬Closed (scriptTokens script ++ u.tokens) := by
  have hhead : NoBraces (.word "if".toList :: u.test.tokens) :=
    (noBraces_cons _).mpr ⟨by decide, u.test.noBraces_tokens⟩
  have hblock := noBraces_block u.block
  intro hclosed
  have htokens : u.tokens =
      (.word "if".toList :: u.test.tokens) ++ .punct '{' :: blockTokens u.block := rfl
  rw [Closed, htokens, List.count_append, List.count_append, List.count_append, List.count_append,
    closed_script script, hhead.count.1, hhead.count.2, List.count_cons, List.count_cons,
    hblock.count.1, hblock.count.2] at hclosed
  simp [Tok.punct] at hclosed

/-! ## Accepted scripts -/

theorem closed_of_represented {sieve : Text} {rules : List SieveRule} {toks : List Tok}
    (h : Represented sieve rules) (htoks : tokenize sieve = some toks) : Closed (codeOf toks) := by
  obtain ⟨toks', script, htoks', hcode, -⟩ := h
  obtain rfl := Option.some.inj (htoks.symm.trans htoks')
  rw [hcode]
  exact closed_script script

/-- **All or nothing**, but for an open block: an accepted script is represented by its rules
exactly if all its blocks are closed. -/
theorem represented_iff_closed {sieve : Text} {rules : List SieveRule} {toks : List Tok}
    (h : sieveToRules sieve = some rules) (htoks : tokenize sieve = some toks) :
    Represented sieve rules ↔ Closed (codeOf toks) := by
  refine ⟨fun hrep => closed_of_represented hrep htoks, fun hclosed => ?_⟩
  obtain ⟨toks', htoks', hparsed⟩ := parse_of_accepted h
  obtain rfl := Option.some.inj (htoks.symm.trans htoks')
  obtain ⟨script, unclosed, hcode, hgives, -⟩ := parse_accepts hparsed
  cases unclosed with
  | none =>
    rw [endTokens, List.append_nil] at hcode
    exact ⟨toks, script, htoks, hcode, hgives⟩
  | some u =>
    rw [hcode] at hclosed
    exact absurd hclosed (not_closed_unclosed script u)

/-- A script with a test in its comment and one after it. -/
def closedScript : Text := "# rule:[a]\nif true \x7b keep; \x7d\nstop;".toList

/-- Its tokens. -/
def closedTokens : List Tok := (tokenize closedScript).getD []

theorem represented_closedScript :
    ∃ rules, sieveToRules closedScript = some rules ∧
      tokenize closedScript = some closedTokens ∧
      (Represented closedScript rules ↔ Closed (codeOf closedTokens)) := by
  have hrules : (sieveToRules closedScript).isSome = true := by decide +kernel
  obtain ⟨rules, hrules⟩ := Option.isSome_iff_exists.mp hrules
  have htoks : tokenize closedScript = some closedTokens := by decide +kernel
  exact ⟨rules, hrules, htoks, represented_iff_closed hrules htoks⟩

/-- A script whose second block is left open. -/
def openScript : Text := "if true \x7b keep; \x7d\nif true \x7b discard;".toList

/-- **What stands in an open block is lost**: the script is accepted with the first rule. -/
theorem open_block_accepted :
    ∃ rules, sieveToRules openScript = some rules ∧ ¬Represented openScript rules := by
  have hrules : (sieveToRules openScript).isSome = true := by decide +kernel
  obtain ⟨rules, hrules⟩ := Option.isSome_iff_exists.mp hrules
  refine ⟨rules, hrules, fun hrep => ?_⟩
  have htoks : tokenize openScript = some ((tokenize openScript).getD []) := by decide +kernel
  have hopen : ¬Closed (codeOf ((tokenize openScript).getD [])) := by decide +kernel
  exact hopen (closed_of_represented hrep htoks)

end E2Mail.Sieve
