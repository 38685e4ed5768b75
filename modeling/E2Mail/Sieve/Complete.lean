import E2Mail.Sieve.Meaning

/-!
# The parser reads what it should

On the tokens of a part of a script the parser makes of it what `Meaning` says, and stops
where these tokens end: `complete_test`, `complete_command`, `complete_script`.
-/

namespace E2Mail.Sieve

open Parse (null error peek next hasError orNull fuel)

variable {α β : Type}

/-! ## Runs of parsers -/

/-- The next token that is not a comment. -/
def ahead (ts : List Tok) : Option Tok := (ts.dropWhile fun t => t.k == .comment).head?

theorem ahead_cons {t : Tok} (ht : t.k ≠ .comment) (ts : List Tok) : ahead (t :: ts) = some t := by
  simp [ahead, ht]

theorem next_cons {t : Tok} (ht : t.k ≠ .comment) (ts : List Tok) (e : Bool) :
    Parser.next ⟨t :: ts, e⟩ = ⟨ts, e⟩ := by
  simp [Parser.next, Parser.skipped, ht]

/-- Without an error, the parser reads these tokens as `a`, with `rest` after them. -/
def ReadsAs (x : Parse α) (ts : List Tok) (a : α) (rest : List Tok) : Prop :=
  x ⟨ts ++ rest, false⟩ = (some a, ⟨rest, false⟩)

theorem bind_run {x : Parse α} {f : α → Parse β} {p q : Parser} {a : α}
    (h : x p = (some a, q)) : (x >>= f) p = f a q := by
  rw [Parse.bind_eq, h]

namespace ReadsAs

variable {ts us rest : List Tok} {a : α} {b : β}

theorem pure : ReadsAs (Pure.pure a) [] a rest := rfl

theorem bind {x : Parse α} {f : α → Parse β} (hx : ReadsAs x ts a (us ++ rest))
    (hf : ReadsAs (f a) us b rest) : ReadsAs (x >>= f) (ts ++ us) b rest := by
  rw [ReadsAs, List.append_assoc, bind_run hx, hf]

theorem bind_last {x : Parse α} {f : α → Parse β} (hx : ReadsAs x ts a rest)
    (hf : ReadsAs (f a) [] b rest) : ReadsAs (x >>= f) ts b rest := by
  have h := ReadsAs.bind hx (show ReadsAs (f a) [] b rest from hf)
  rwa [List.append_nil] at h

/-- What comes next decides. -/
theorem peek {f : Option Tok → Parse β} (h : ReadsAs (f (ahead (ts ++ rest))) ts b rest) :
    ReadsAs (Parse.peek >>= f) ts b rest := h

theorem peek_cons {f : Option Tok → Parse β} {t : Tok} (ht : t.k ≠ .comment)
    (h : ReadsAs (f (some t)) (t :: ts) b rest) :
    ReadsAs (Parse.peek >>= f) (t :: ts) b rest := by
  refine ReadsAs.peek ?_
  rw [List.cons_append, ahead_cons ht]
  exact h

theorem next {f : Unit → Parse β} {t : Tok} (ht : t.k ≠ .comment)
    (h : ReadsAs (f ()) ts b rest) : ReadsAs (Parse.next >>= f) (t :: ts) b rest := by
  have hrun : Parse.next ⟨t :: ts ++ rest, false⟩ = (some (), ⟨ts ++ rest, false⟩) := by
    rw [List.cons_append, ← next_cons ht (ts ++ rest) false]
    rfl
  rw [ReadsAs, bind_run hrun, h]

/-- A loop has more turns than there are tokens. -/
theorem fuel {f : Nat → Parse β} (h : ∀ turns, ts.length < turns → ReadsAs (f turns) ts b rest) :
    ReadsAs (Parse.fuel >>= f) ts b rest := by
  refine h ((ts ++ rest).length + 1) ?_
  rw [List.length_append]
  omega

theorem hasError {f : Bool → Parse β} (h : ReadsAs (f false) ts b rest) :
    ReadsAs (Parse.hasError >>= f) ts b rest := h

end ReadsAs

theorem isPunct_self (c : Char) : isPunct (some (.punct c)) c = true := by
  simp [isPunct]

/-! ## Strings -/

theorem complete_punct (c : Char) (rest : List Tok) :
    ReadsAs (expectPunct c) [.punct c] () rest := by
  rw [expectPunct]
  refine .peek_cons (by simp) ?_
  rw [isPunct_self, if_pos rfl]
  rfl

theorem complete_items (more : List Text) : ∀ (turns : Nat) (items : List Text) (first : Text)
    (rest : List Tok), more.length < turns →
    ReadsAs (parseItems turns items) (.quoted first :: (StrList.restTokens more ++ [.punct ']']))
      (items ++ first :: more) rest := by
  induction more with
  | nil =>
    intro turns items first rest hturns
    obtain ⟨turns, rfl⟩ := Nat.exists_eq_add_one.mpr hturns
    rw [parseItems]
    refine .peek_cons (by simp) (.next (by simp) (.peek_cons (by simp) ?_))
    exact .next (by simp) .pure
  | cons next more ih =>
    intro turns items first rest hturns
    obtain ⟨turns, rfl⟩ := Nat.exists_eq_add_one.mpr (Nat.zero_lt_of_lt hturns)
    rw [parseItems]
    refine .peek_cons (by simp) (.next (by simp) (.peek_cons (by simp) ?_))
    have hrest := ih turns (items ++ [first]) next rest (Nat.lt_of_succ_lt_succ hturns)
    rw [List.append_assoc, List.singleton_append] at hrest
    exact .next (by simp) hrest

theorem length_restTokens (more : List Text) : more.length ≤ (StrList.restTokens more).length := by
  rw [StrList.restTokens, List.length_flatMap]
  induction more with
  | nil => exact Nat.le_refl 0
  | cons s more ih =>
    simp only [List.map_cons, List.sum_cons, List.length_cons, List.length_nil] at ih ⊢
    omega

/-- **A list of strings** is read as its items. -/
theorem complete_strings (list : StrList) (rest : List Tok) :
    ReadsAs parseStringList list.tokens list.items rest := by
  rw [parseStringList]
  cases list with
  | one s => exact .peek_cons (by simp) (.next (by simp) .pure)
  | many first more =>
    refine .peek_cons (by simp) (.next (by simp) (.fuel fun turns hturns => ?_))
    have hlen := length_restTokens more
    simp only [List.length_cons, List.length_append] at hturns
    exact complete_items more turns [] first rest (by omega)

/-- A list of strings begins as one. -/
theorem startsList_tokens (list : StrList) (ts : List Tok) :
    startsList (ahead (list.tokens ++ ts)) = true := by
  cases list <;> rfl

theorem ahead_tokens (list : StrList) (ts : List Tok) :
    ∃ t, ahead (list.tokens ++ ts) = some t ∧ t.k ≠ .annot ∧ startsList (some t) = true := by
  cases list with
  | one s => exact ⟨.quoted s, rfl, by simp, rfl⟩
  | many first more => exact ⟨.punct '[', rfl, by simp, rfl⟩

theorem length_tokens_pos (list : StrList) : 0 < list.tokens.length := by
  cases list <;> simp [StrList.tokens]

theorem complete_lists (args : List StrList) : ∀ (turns : Nat) (lists : List (List Text))
    (rest : List Tok), (args.flatMap StrList.tokens).length < turns →
    startsList (ahead rest) = false →
    ReadsAs (parseLists turns lists) (args.flatMap StrList.tokens)
      (lists ++ args.map StrList.items) rest := by
  induction args with
  | nil =>
    intro turns lists rest hturns hrest
    obtain ⟨turns, rfl⟩ := Nat.exists_eq_add_one.mpr (Nat.zero_lt_of_lt hturns)
    rw [parseLists]
    refine .peek ?_
    rw [List.flatMap_nil, List.nil_append, hrest, if_neg Bool.false_ne_true, List.map_nil,
      List.append_nil]
    exact .pure
  | cons arg args ih =>
    intro turns lists rest hturns hrest
    obtain ⟨turns, rfl⟩ := Nat.exists_eq_add_one.mpr (Nat.zero_lt_of_lt hturns)
    rw [List.flatMap_cons, List.length_append] at hturns
    have hpos := length_tokens_pos arg
    have hnext := ih turns (lists ++ [arg.items]) rest (by omega) hrest
    rw [List.append_assoc, List.singleton_append] at hnext
    rw [parseLists, List.flatMap_cons, List.map_cons]
    refine .peek ?_
    rw [List.append_assoc, startsList_tokens, if_pos rfl]
    exact .bind (complete_strings arg _) hnext

/-! ## Tests -/

/-- The next token is no tag. -/
def NoTag (rest : List Tok) : Prop := ∀ t, ahead rest = some t → t.k ≠ .annot

theorem complete_tags (tags : List TestTag) : ∀ (turns : Nat) (op : Option SieveConditionOp)
    (part : SieveAddressPart) (read : SieveConditionOp × SieveAddressPart) (rest : List Tok),
    tags.all TestTag.plain = true → tags.length < turns → NoTag rest → readTags tags op part = some read →
    ReadsAs (parseTestAnnotations turns op part) (tags.flatMap TestTag.tokens) read rest := by
  induction tags with
  | nil =>
    intro turns op part read rest _ hturns hrest hread
    obtain ⟨turns, rfl⟩ := Nat.exists_eq_add_one.mpr hturns
    obtain rfl := Option.some.inj hread
    rw [parseTestAnnotations]
    refine .peek ?_
    rw [List.flatMap_nil, List.nil_append]
    split
    · rename_i v hahead
      exact absurd rfl (hrest _ hahead)
    · exact .pure
  | cons tag tags ih =>
    intro turns op part read rest hplain hturns hrest hread
    obtain ⟨turns, rfl⟩ := Nat.exists_eq_add_one.mpr (Nat.zero_lt_of_lt hturns)
    rw [List.all_cons, Bool.and_eq_true] at hplain
    have hlt : tags.length < turns := Nat.lt_of_succ_lt_succ hturns
    cases tag with
    | comparator value => cases hplain.1
    | tag name =>
      rw [parseTestAnnotations, List.flatMap_cons]
      refine .peek_cons (t := .annot name) (by simp) (.next (by simp) ?_)
      rw [readTags] at hread
      cases hop : tagOp (':' :: name) with
      | some newOp =>
        rw [hop] at hread
        dsimp only at hread
        split at hread
        · rename_i hcond
          simp only [hcond, if_true]
          exact ih turns (some newOp) part read rest hplain.2 hlt hrest hread
        · cases hread
      | none =>
        cases hpart : tagPart (':' :: name) with
        | some newPart =>
          rw [hop, hpart] at hread
          dsimp only at hread
          split at hread
          · rename_i hcond
            simp only [hcond, if_true]
            exact ih turns op newPart read rest hplain.2 hlt hrest hread
          · cases hread
        | none =>
          rw [hop, hpart] at hread
          cases hread

theorem noTag_tokens (list : StrList) (ts : List Tok) : NoTag (list.tokens ++ ts) := by
  intro t ht
  cases list with
  | one s =>
    obtain rfl := Option.some.inj ht
    simp
  | many first more =>
    obtain rfl := Option.some.inj ht
    simp

theorem length_tags (tags : List TestTag) :
    tags.length ≤ (tags.flatMap TestTag.tokens).length := by
  induction tags with
  | nil => exact Nat.le_refl 0
  | cons tag tags ih =>
    have hpos : 0 < tag.tokens.length := by
      obtain name | value | value := tag <;> simp [TestTag.tokens]
    rw [List.flatMap_cons, List.length_append, List.length_cons]
    omega

/-- A test with arguments has some. -/
theorem headersAndValues_nil (kind : SimpleKind) : headersAndValues kind [] = none := by
  cases kind <;> rfl

theorem complete_simple {kind : SimpleKind} {tags : List TestTag} {args : List StrList}
    {s : SimpleTest} {rest : List Tok}
    (hplain : tags.all TestTag.plain = true)
    (hrest : startsList (ahead rest) = false) (hnode : simpleNode kind tags args = some s) :
    ReadsAs (parseSimpleTest kind) (Test.simple kind tags args).tokens s rest := by
  rw [simpleNode] at hnode
  cases htags : readTags tags none .whole with
  | none =>
    rw [htags] at hnode
    cases hnode
  | some read =>
    cases hargs : headersAndValues kind (args.map StrList.items) with
    | none =>
      rw [htags, hargs] at hnode
      cases hnode
    | some found =>
      rw [htags, hargs] at hnode
      obtain rfl := Option.some.inj hnode
      have hne : args ≠ [] := by
        rintro rfl
        rw [List.map_nil, headersAndValues_nil] at hargs
        cases hargs
      have htag : NoTag (args.flatMap StrList.tokens ++ rest) := by
        obtain ⟨arg, more, rfl⟩ := List.exists_cons_of_ne_nil hne
        rw [List.flatMap_cons, List.append_assoc]
        exact noTag_tokens arg _
      rw [parseSimpleTest, Test.tokens]
      refine .next (by simp) (.fuel fun turns hturns => ?_)
      have hlen := length_tags tags
      rw [List.length_append] at hturns
      refine .bind (complete_tags tags turns none .whole read _ hplain (by omega) htag htags) ?_
      refine .fuel fun turns hturns => ?_
      have hlists := complete_lists args turns [] rest hturns hrest
      refine .bind_last hlists ?_
      rw [List.nil_append, hargs]
      exact .pure

/-- Wherever no list goes on, the test is read as the node. -/
def ReadsTest (negDepth : Nat) (t : Test) (n : TestNode) : Prop :=
  ∀ turns rest, t.tokens.length < turns → startsList (ahead rest) = false →
    ReadsAs (parseTest turns negDepth) t.tokens n rest

theorem complete_truth (negDepth : Nat) : ReadsTest negDepth .truth .truth := by
  intro turns rest hturns _
  obtain ⟨turns, rfl⟩ := Nat.exists_eq_add_one.mpr (Nat.zero_lt_of_lt hturns)
  rw [parseTest, Test.tokens]
  refine .peek_cons (by simp) ?_
  dsimp only
  rw [if_neg (by decide), if_neg (by decide),
    if_pos (show (Tok.word "true".toList).v = "true".toList from rfl)]
  exact .next (by simp) .pure

theorem simpleKind_word (kind : SimpleKind) : simpleKind kind.word = some kind := by
  cases kind <;> decide

theorem complete_simpleTest {kind : SimpleKind} {tags : List TestTag} {args : List StrList}
    {s : SimpleTest} (negDepth : Nat) (hplain : tags.all TestTag.plain = true)
    (hnode : simpleNode kind tags args = some s) :
    ReadsTest negDepth (.simple kind tags args) (.simple s) := by
  intro turns rest hturns hrest
  obtain ⟨turns, rfl⟩ := Nat.exists_eq_add_one.mpr (Nat.zero_lt_of_lt hturns)
  have hsimple := complete_simple hplain hrest hnode
  have hparen : Tok.word kind.word ≠ .punct '(' := by simp [Tok.word, Tok.punct]
  have htrue : (Tok.word kind.word).v ≠ "true".toList := by cases kind <;> decide
  rw [parseTest]
  rw [Test.tokens] at hsimple ⊢
  refine .peek_cons (by simp) ?_
  dsimp only
  rw [if_neg hparen, if_neg (by simp), if_neg htrue,
    show (Tok.word kind.word).v = kind.word from rfl, simpleKind_word]
  exact .bind_last hsimple .pure

theorem complete_paren {negDepth : Nat} {t : Test} {n : TestNode} (h : ReadsTest negDepth t n) :
    ReadsTest negDepth (.paren t) n := by
  intro turns rest hturns _
  obtain ⟨turns, rfl⟩ := Nat.exists_eq_add_one.mpr (Nat.zero_lt_of_lt hturns)
  rw [Test.tokens, List.length_cons, List.length_append] at hturns
  rw [parseTest, Test.tokens]
  refine .peek_cons (by simp) ?_
  dsimp only
  rw [if_pos rfl]
  refine .next (by simp) (.bind (h turns _ (by omega) rfl) ?_)
  exact .bind_last (complete_punct ')' rest) .pure

theorem complete_neg {t : Test} {s : SimpleTest} (h : ReadsTest 1 t (.simple s)) :
    ReadsTest 0 (.neg t) (.simple { s with negated := true }) := by
  intro turns rest hturns hrest
  obtain ⟨turns, rfl⟩ := Nat.exists_eq_add_one.mpr (Nat.zero_lt_of_lt hturns)
  rw [Test.tokens, List.length_cons] at hturns
  have hnull : ReadsAs (orNull (parseTest turns 1)) t.tokens (some (.simple s)) rest := by
    have hrun := h turns rest (by omega) hrest
    rw [ReadsAs, orNull, hrun]
  rw [parseTest, Test.tokens]
  refine .peek_cons (by simp) ?_
  dsimp only
  rw [if_neg (by decide), if_neg (by decide), if_neg (by decide)]
  exact .next (by simp) (.bind_last hnull .pure)

theorem complete_last {negDepth : Nat} {t : Test} {n : TestNode} (h : ReadsTest negDepth t n)
    (turns : Nat) (children : List TestNode) (rest : List Tok) (hturns : t.tokens.length < turns)
    (hlist : startsList (ahead rest) = false) (hcomma : isPunct (ahead rest) ',' = false) :
    ReadsAs (parseChildren (turns + 1) negDepth children) t.tokens (children ++ [n]) rest := by
  rw [parseChildren]
  refine .bind_last (h turns rest hturns hlist) (.peek ?_)
  rw [List.nil_append, hcomma, if_neg Bool.false_ne_true]
  exact .pure

mutual

/-- **A test** is read as its node. -/
theorem complete_test : ∀ (t : Test) (negDepth : Nat) (n : TestNode), t.plain = true →
    t.node negDepth = some n → ReadsTest negDepth t n
  | .truth, negDepth, n, _, hnode => by
    rw [Test.node] at hnode
    obtain rfl := Option.some.inj hnode
    exact complete_truth negDepth
  | .simple kind tags args, negDepth, n, hplain, hnode => by
    rw [Test.node] at hnode
    obtain ⟨s, hs, rfl⟩ := Option.map_eq_some_iff.mp hnode
    exact complete_simpleTest negDepth hplain hs
  | .paren t, negDepth, n, hplain, hnode => by
    rw [Test.node] at hnode
    exact complete_paren (complete_test t negDepth n hplain hnode)
  | .neg t, negDepth, n, hplain, hnode => by
    rw [Test.node] at hnode
    split at hnode
    · cases hnode
    · rename_i hdepth
      obtain rfl : negDepth = 0 := Nat.eq_zero_of_not_pos hdepth
      split at hnode
      · rename_i s hs
        obtain rfl := Option.some.inj hnode
        exact complete_neg (complete_test t 1 _ hplain hs)
      · cases hnode
  | .group join first more, negDepth, n, hplain, hnode => by
    rw [Test.node] at hnode
    rw [Test.plain, Bool.and_eq_true] at hplain
    split at hnode
    · rename_i child children hchild hchildren
      obtain rfl := Option.some.inj hnode
      have hfirst := complete_test first negDepth child hplain.1 hchild
      have hmore := complete_children more negDepth first child children hplain.2 hfirst hchildren
      intro turns rest hturns _
      obtain ⟨turns, rfl⟩ := Nat.exists_eq_add_one.mpr (Nat.zero_lt_of_lt hturns)
      rw [Test.tokens, List.length_cons, List.length_cons, List.length_append] at hturns
      rw [Test.tokens, parseTest]
      refine .peek_cons (by simp) ?_
      dsimp only
      have htrue : (Tok.word join.word).v ≠ "true".toList := by cases join <;> decide
      have hnot : (Tok.word join.word).v ≠ "not".toList := by cases join <;> decide
      have hkind : simpleKind (Tok.word join.word).v = none := by cases join <;> decide
      have hjoin : joinOf (Tok.word join.word).v = some join := by cases join <;> decide
      rw [if_neg (by simp [Tok.word, Tok.punct]), if_neg (by simp), if_neg htrue, hkind]
      dsimp only
      rw [if_neg hnot, hjoin]
      refine .next (by simp) ?_
      rw [← List.singleton_append]
      refine .bind (complete_punct '(' _) (.bind (hmore turns [] _ (by omega) rfl rfl) ?_)
      exact .bind_last (complete_punct ')' rest) .pure
    · cases hnode

/-- Tests with commas between them are read as their nodes. -/
theorem complete_children : ∀ (more : List Test) (negDepth : Nat) (first : Test)
    (child : TestNode) (children : List TestNode), Test.allPlain more = true →
    ReadsTest negDepth first child → Test.nodes negDepth more = some children →
    ∀ (turns : Nat) (before : List TestNode) (rest : List Tok),
      (first.tokens ++ Test.restTokens more).length + 1 < turns →
      startsList (ahead rest) = false → isPunct (ahead rest) ',' = false →
      ReadsAs (parseChildren turns negDepth before) (first.tokens ++ Test.restTokens more)
        (before ++ child :: children) rest
  | [], negDepth, first, child, children, _, hfirst, hnodes => by
    intro turns before rest hturns hlist hcomma
    obtain ⟨turns, rfl⟩ := Nat.exists_eq_add_one.mpr (Nat.zero_lt_of_lt hturns)
    rw [Test.nodes] at hnodes
    obtain rfl := Option.some.inj hnodes
    rw [Test.restTokens, List.append_nil] at hturns ⊢
    exact complete_last hfirst turns before rest (by omega) hlist hcomma
  | next :: more, negDepth, first, child, children, hplain, hfirst, hnodes => by
    intro turns before rest hturns hlist hcomma
    obtain ⟨turns, rfl⟩ := Nat.exists_eq_add_one.mpr (Nat.zero_lt_of_lt hturns)
    rw [Test.allPlain, Bool.and_eq_true] at hplain
    rw [Test.nodes] at hnodes
    split at hnodes
    · rename_i nextChild tail hnext htail
      obtain rfl := Option.some.inj hnodes
      have hreads := complete_test next negDepth nextChild hplain.1 hnext
      have hmore := complete_children more negDepth next nextChild tail hplain.2 hreads htail
      have hpos : 0 < first.tokens.length := List.length_pos_iff.mpr first.tokens_ne_nil
      rw [Test.restTokens, List.length_append, List.length_cons] at hturns
      rw [parseChildren, Test.restTokens]
      refine .bind (hfirst turns _ (by omega) rfl) (.peek_cons (by simp) ?_)
      rw [isPunct_self, if_pos rfl]
      have hrest := hmore turns (before ++ [child]) rest (by omega) hlist hcomma
      rw [List.append_assoc, List.singleton_append] at hrest
      exact .next (by simp) hrest
    · cases hnodes

end

theorem complete_entry {t : Test} {n : TestNode} {rest : List Tok} {w : Text} {ts : List Tok}
    (hword : t.tokens = .word w :: ts) (hplain : t.plain = true) (hnode : t.node 0 = some n)
    (hrest : startsList (ahead rest) = false) : ReadsAs parseTestEntry t.tokens n rest := by
  have htest : ∀ turns, t.tokens.length < turns → ReadsAs (parseTest turns 0) t.tokens n rest :=
    fun turns hturns => complete_test t 0 n hplain hnode turns rest hturns hrest
  rw [parseTestEntry]
  rw [hword] at htest ⊢
  exact .peek_cons (by simp) (.fuel htest)

/-! ## Commands -/

theorem complete_args (args : List Arg) : ∀ (turns : Nat) (annots strs : List Text)
    (rest : List Tok), args.length < turns →
    ReadsAs (parseArgs turns annots strs) (args.flatMap Arg.tokens ++ [.punct ';'])
      (annots ++ annotsOf args, strs ++ strsOf args) rest := by
  induction args with
  | nil =>
    intro turns annots strs rest hturns
    obtain ⟨turns, rfl⟩ := Nat.exists_eq_add_one.mpr (Nat.zero_lt_of_lt hturns)
    rw [parseArgs]
    refine .peek_cons (by simp) ?_
    dsimp only
    rw [if_neg (by simp), if_neg (by decide), if_pos rfl]
    refine .next (by simp) ?_
    have hannots : annots ++ annotsOf [] = annots := List.append_nil annots
    have hstrs : strs ++ strsOf [] = strs := List.append_nil strs
    rw [hannots, hstrs]
    exact .pure
  | cons arg args ih =>
    intro turns annots strs rest hturns
    obtain ⟨turns, rfl⟩ := Nat.exists_eq_add_one.mpr (Nat.zero_lt_of_lt hturns)
    have hlt : args.length < turns := Nat.lt_of_succ_lt_succ hturns
    rw [parseArgs, List.flatMap_cons, List.append_assoc]
    cases arg with
    | tag name =>
      have htail := ih turns (annots ++ [':' :: name]) strs rest hlt
      rw [List.append_assoc, List.singleton_append] at htail
      refine .peek_cons (t := .annot name) (by simp) ?_
      dsimp only
      rw [if_pos (Tok.annot_k name)]
      exact .next (by simp) htail
    | strings list =>
      have htail := ih turns annots (strs ++ list.items) rest hlt
      rw [List.append_assoc] at htail
      obtain ⟨t, hahead, hk, hstarts⟩ := ahead_tokens list (args.flatMap Arg.tokens ++
        [.punct ';'] ++ rest)
      refine .peek ?_
      rw [Arg.tokens, List.append_assoc, hahead]
      dsimp only
      rw [if_neg hk, if_pos hstarts]
      exact .bind (complete_strings list _) htail

/-- **A command** is read as its action. -/
theorem complete_command {c : Command} {a : SieveAction} (h : c.action = some a)
    (rest : List Tok) : ReadsAs parseCommand c.tokens a rest := by
  obtain ⟨name, args⟩ := c
  rw [parseCommand, Command.tokens]
  refine .peek_cons (by simp) (.next (by simp) (.fuel fun turns hturns => ?_))
  have hlen : args.length ≤ (args.flatMap Arg.tokens).length := by
    clear h hturns
    induction args with
    | nil => exact Nat.le_refl 0
    | cons arg args ih =>
      have hpos : 0 < arg.tokens.length := by
        cases arg with
        | tag name => exact Nat.one_pos
        | strings list => exact length_tokens_pos list
      rw [List.flatMap_cons, List.length_append, List.length_cons]
      omega
  rw [List.length_append] at hturns
  dsimp only at hturns
  refine .bind_last (complete_args args turns [] [] rest (by omega)) ?_
  rw [Command.action] at h
  dsimp only at h ⊢
  rw [List.nil_append, List.nil_append]
  split at h
  · cases h
  · rename_i hcopy
    rw [if_neg hcopy, h]
    exact .pure

/-- The commands that become actions. -/
def actionNames : List Text :=
  ["fileinto".toList, "redirect".toList, "reject".toList, "ereject".toList, "discard".toList,
    "keep".toList, "stop".toList, "setflag".toList, "addflag".toList, "removeflag".toList]

theorem mem_actionNames {name : Text} {copy : Bool} {strs : List Text} {a : SieveAction}
    (h : actionOf name copy strs = some a) : name ∈ actionNames := by
  by_contra hname
  simp only [actionNames, List.mem_cons, List.not_mem_nil, or_false, not_or] at hname
  obtain ⟨h1, h2, h3, h4, h5, h6, h7, h8, h9, h10⟩ := hname
  unfold actionOf at h
  rw [if_neg h1, if_neg h2, if_neg (not_or.mpr ⟨h3, h4⟩), if_neg h5, if_neg h6,
    if_neg h7] at h
  dsimp only at h
  rw [if_neg h8, if_neg h9, if_neg h10] at h
  cases h

theorem name_of_action {c : Command} {a : SieveAction} (h : c.action = some a) :
    c.name ∈ actionNames := by
  rw [Command.action] at h
  split at h
  · cases h
  · exact mem_actionNames h

/-- No name of an action is a name for tests, or requires. -/
theorem startsIf_of_mem {name : Text} (h : name ∈ actionNames) :
    startsIf name = false ∧ name ≠ "require".toList ∧ name ≠ "if".toList ∧
      name ≠ "elsif".toList ∧ name ≠ "else".toList := by
  revert name
  simp only [actionNames, List.forall_mem_cons]
  refine ⟨?_, ?_, ?_, ?_, ?_, ?_, ?_, ?_, ?_, ?_, by simp⟩ <;> decide

theorem complete_blockLoop {block : List Command} {acts : List SieveAction}
    (h : List.Forall₂ (fun c a => Command.action c = some a) block acts) :
    ∀ (turns : Nat) (before : List SieveAction) (rest : List Tok),
      block.length < turns →
      ReadsAs (parseBlockLoop turns before) (blockTokens block ++ [.punct '}'])
        (before ++ acts, false) rest := by
  induction h with
  | nil =>
    intro turns before rest hturns
    obtain ⟨turns, rfl⟩ := Nat.exists_eq_add_one.mpr (Nat.zero_lt_of_lt hturns)
    rw [parseBlockLoop, List.append_nil]
    refine .hasError (.peek_cons (by simp) ?_)
    dsimp only
    rw [if_pos rfl]
    exact .next (by simp) .pure
  | @cons c a block acts hc _ ih =>
    intro turns before rest hturns
    obtain ⟨turns, rfl⟩ := Nat.exists_eq_add_one.mpr (Nat.zero_lt_of_lt hturns)
    have hlt : block.length < turns := Nat.lt_of_succ_lt_succ hturns
    have hhead : startsIf c.name = false := (startsIf_of_mem (name_of_action hc)).1
    have htail := ih turns (before ++ [a]) rest hlt
    rw [List.append_assoc, List.singleton_append] at htail
    have hcommand := complete_command hc (blockTokens block ++ [.punct '}'] ++ rest)
    rw [parseBlockLoop, blockTokens, List.flatMap_cons, List.append_assoc]
    refine .hasError (.peek ?_)
    rw [List.append_assoc, Command.tokens, List.cons_append, ahead_cons (by simp)]
    dsimp only
    rw [if_neg (by simp [Tok.word, Tok.punct]), if_neg (by simp),
      show (Tok.word c.name).v = c.name from rfl, hhead, if_neg Bool.false_ne_true]
    exact .bind hcommand htail

/-- **A block** is read as its actions. -/
theorem complete_block {block : List Command} {acts : List SieveAction}
    (h : block.mapM Command.action = some acts) (rest : List Tok) :
    ReadsAs parseBlock (.punct '{' :: (blockTokens block ++ [.punct '}'])) (acts, false) rest := by
  have hlen : block.length ≤ (blockTokens block).length := by
    clear h
    induction block with
    | nil => exact Nat.le_refl 0
    | cons c block ih =>
      rw [blockTokens] at ih ⊢
      rw [List.flatMap_cons, List.length_append, List.length_cons, Command.tokens, List.length_cons]
      omega
  rw [parseBlock, ← List.singleton_append]
  refine .bind (complete_punct '{' _) (.fuel fun turns hturns => ?_)
  rw [List.length_append] at hturns
  exact complete_blockLoop (mapM_eq_some_iff.mp h) turns [] rest (by omega)

/-! ## Statements -/

/-- What comes next neither belongs to the statement before nor goes on with its test. -/
def Fresh (rest : List Tok) : Prop :=
  ∀ t, ahead rest = some t → ∃ w, t = .word w ∧ w ≠ "elsif".toList ∧ w ≠ "else".toList

theorem Fresh.not_punct {rest : List Tok} (h : Fresh rest) (c : Char) :
    isPunct (ahead rest) c = false := by
  cases hahead : ahead rest with
  | none => rfl
  | some t =>
    obtain ⟨w, rfl, -⟩ := h t hahead
    simp [isPunct, Tok.word, Tok.punct]

/-- The first word of a statement. -/
theorem head_of_read {s : Statement} {r r' : Reading} (h : s.read r = some r') :
    (∃ v, s = .comment v) ∨ ∃ w ts, s.tokens = .word w :: ts ∧ w ≠ "elsif".toList ∧
      w ≠ "else".toList := by
  cases s with
  | comment v => exact .inl ⟨v, rfl⟩
  | require list semicolon => exact .inr ⟨"require".toList, _, rfl, by decide, by decide⟩
  | ifThen test block => exact .inr ⟨"if".toList, _, rfl, by decide, by decide⟩
  | command c =>
    obtain ⟨a, ha, -⟩ := Option.map_eq_some_iff.mp h
    obtain ⟨-, -, -, hne⟩ := startsIf_of_mem (name_of_action ha)
    exact .inr ⟨c.name, _, rfl, hne⟩

theorem fresh_script (script : List Statement) : ∀ (r r' : Reading),
    readScript r script = some r' → Fresh (scriptTokens script) := by
  induction script with
  | nil =>
    intro r r' _ t ht
    cases ht
  | cons s script ih =>
    intro r r' h
    obtain ⟨r1, hread, hscript⟩ := Option.bind_eq_some_iff.mp h
    obtain ⟨v, rfl⟩ | ⟨w, ts, hs, hne⟩ := head_of_read hread
    · exact ih r1 r' hscript
    · intro t ht
      rw [scriptTokens_cons, hs, List.cons_append, ahead_cons (by simp)] at ht
      exact ⟨w, (Option.some.inj ht).symm, hne⟩

/-- One turn of the loop, at a token that is no comment. -/
theorem parseLoop_word {turns : Nat} {rules : List SieveRule} {lastComment w : Text}
    {ts : List Tok} : parseLoop (turns + 1) rules lastComment ⟨.word w :: ts, false⟩ =
      if w = "require".toList then
        match parseStringList ⟨ts, false⟩ with
        | (none, p) => (rules, p)
        | (some _, p) =>
          parseLoop turns rules lastComment (if isPunct p.peek ';' then p.next else p)
      else if w = "if".toList then
        match parseTestEntry ⟨ts, false⟩ with
        | (none, p) => (rules, p)
        | (some expr, p) =>
          match parseBlock p with
          | (none, p) => (rules, p)
          | (some (actions, nested), p) =>
            if p.peek = some (.word "elsif".toList) ∨ p.peek = some (.word "else".toList) ∨
                nested then
              (rules, p.fail)
            else
              match flattenTest expr with
              | none => (rules, p.fail)
              | some (join, conds) =>
                parseLoop turns (rules ++ [⟨ruleName lastComment rules.length, true, join, conds,
                  actions⟩]) [] p
      else
        match parseCommand ⟨.word w :: ts, false⟩ with
        | (none, p) => (rules, p)
        | (some cmd, p) => parseLoop turns (rules ++ [unconditional cmd]) lastComment p := by
  have hpeek : Parser.peek ⟨.word w :: ts, false⟩ = some (.word w) := ahead_cons (by simp) ts
  have hword : ∀ v, w ≠ v → Tok.word w ≠ .word v := by simp [Tok.word]
  rw [parseLoop]
  dsimp only
  rw [if_neg Bool.false_ne_true, hpeek]
  dsimp only
  rw [if_neg (by simp), next_cons (by simp)]
  by_cases hrequire : w = "require".toList
  · subst hrequire
    exact (if_pos rfl).trans (if_pos rfl).symm
  · rw [if_neg (hword _ hrequire), if_neg hrequire]
    by_cases hif : w = "if".toList
    · subst hif
      exact (if_pos rfl).trans (if_pos rfl).symm
    · rw [if_neg (hword _ hif), if_neg hif]
      exact if_pos (Tok.word_k w)

/-- What `parse` looks at after the loop. -/
def outcome (res : List SieveRule × Parser) : List SieveRule × Bool := (res.1, res.2.error)

/-- One turn at a comment. Where nothing but comments is left, the loop is done. -/
theorem parseLoop_comment {turns : Nat} (hturns : 0 < turns) (r : Reading) (v : Text)
    (rest : List Tok) :
    outcome (parseLoop (turns + 1) r.rules r.lastComment ⟨.comment v :: rest, false⟩) =
      outcome (parseLoop turns r.rules
        (if "rule:".toList.isPrefixOf v then v else r.lastComment) ⟨rest, false⟩) := by
  have hpeek : Parser.peek ⟨.comment v :: rest, false⟩ = ahead rest := rfl
  rw [parseLoop]
  dsimp only
  rw [if_neg Bool.false_ne_true, hpeek]
  cases hahead : ahead rest with
  | some t => rfl
  | none =>
    obtain ⟨turns, rfl⟩ := Nat.exists_eq_add_one.mpr hturns
    have hrest : Parser.peek ⟨rest, false⟩ = none := hahead
    rw [parseLoop, if_neg Bool.false_ne_true, hrest]
    cases rest <;> rfl

theorem complete_statement {s : Statement} {r r' : Reading} (hread : s.read r = some r')
    (hplain : s.plain = true) {rest : List Tok} (hrest : Fresh rest) {turns : Nat}
    (hturns : 0 < turns) :
    outcome (parseLoop (turns + 1) r.rules r.lastComment ⟨s.tokens ++ rest, false⟩) =
      outcome (parseLoop turns r'.rules r'.lastComment ⟨rest, false⟩) := by
  cases s with
  | comment v =>
    obtain rfl := Option.some.inj hread
    exact parseLoop_comment hturns r v rest
  | require list semicolon =>
    obtain rfl := Option.some.inj hread
    have hlist := complete_strings list ((if semicolon then [.punct ';'] else []) ++ rest)
    rw [ReadsAs] at hlist
    rw [Statement.tokens, List.cons_append, parseLoop_word, if_pos rfl, List.append_assoc, hlist]
    dsimp only
    cases semicolon with
    | true =>
      have hpeek : Parser.peek ⟨.punct ';' :: rest, false⟩ = some (.punct ';') :=
        ahead_cons (by simp) rest
      rw [if_pos rfl, List.singleton_append, hpeek, isPunct_self, if_pos rfl, next_cons (by simp)]
    | false =>
      have hpeek : isPunct (Parser.peek ⟨rest, false⟩) ';' = false := hrest.not_punct ';'
      rw [if_neg Bool.false_ne_true, List.nil_append, hpeek, if_neg Bool.false_ne_true]
  | command c =>
    obtain ⟨a, ha, rfl⟩ := Option.map_eq_some_iff.mp hread
    obtain ⟨-, hrequire, hif, -⟩ := startsIf_of_mem (name_of_action ha)
    have hcommand := complete_command ha rest
    rw [Statement.tokens]
    rw [ReadsAs, Command.tokens, List.cons_append] at hcommand
    rw [Command.tokens, List.cons_append, parseLoop_word, if_neg hrequire, if_neg hif, hcommand]
  | ifThen test block =>
    rw [Statement.read] at hread
    cases hnode : test.node 0 with
    | none =>
      rw [hnode] at hread
      cases hread
    | some node =>
      cases hacts : block.mapM Command.action with
      | none =>
        rw [hnode, hacts] at hread
        cases hread
      | some acts =>
        rw [hnode, hacts] at hread
        obtain ⟨flat, hflat, rfl⟩ := Option.map_eq_some_iff.mp hread
        have htest : ReadsAs parseTestEntry test.tokens node
            (.punct '{' :: (blockTokens block ++ [.punct '}']) ++ rest) := by
          cases test with
          | paren t => cases hplain
          | truth | simple | neg | group => exact complete_entry rfl hplain hnode rfl
        have hblock := complete_block hacts rest
        have hafter : ¬(Parser.peek ⟨rest, false⟩ = some (.word "elsif".toList) ∨
            Parser.peek ⟨rest, false⟩ = some (.word "else".toList) ∨ false = true) := by
          rintro (h | h | h)
          · obtain ⟨w, hw, helsif, -⟩ := hrest _ h
            exact helsif (congrArg Tok.v hw).symm
          · obtain ⟨w, hw, -, helse⟩ := hrest _ h
            exact helse (congrArg Tok.v hw).symm
          · cases h
        rw [ReadsAs] at htest hblock
        rw [Statement.tokens, List.cons_append, parseLoop_word, if_neg (by decide), if_pos rfl,
          List.append_assoc, htest]
        dsimp only
        rw [hblock]
        dsimp only
        rw [if_neg hafter, hflat]

/-- **A script** is read as what its statements add up to. -/
theorem complete_script (script : List Statement) : ∀ (r r' : Reading) (turns : Nat),
    readScript r script = some r' → (∀ s ∈ script, s.plain = true) →
    (scriptTokens script).length < turns →
    outcome (parseLoop turns r.rules r.lastComment ⟨scriptTokens script, false⟩) =
      (r'.rules, false) := by
  induction script with
  | nil =>
    intro r r' turns h _ hturns
    obtain ⟨turns, rfl⟩ := Nat.exists_eq_add_one.mpr (Nat.zero_lt_of_lt hturns)
    obtain rfl := Option.some.inj h
    rfl
  | cons s script ih =>
    intro r r' turns h hplain hturns
    obtain ⟨turns, rfl⟩ := Nat.exists_eq_add_one.mpr (Nat.zero_lt_of_lt hturns)
    obtain ⟨r1, hread, hscript⟩ := Option.bind_eq_some_iff.mp h
    have hpos : 0 < s.tokens.length := by
      cases s <;> simp [Statement.tokens, Command.tokens]
    rw [scriptTokens_cons, List.length_append] at hturns
    rw [scriptTokens_cons, complete_statement hread (hplain s List.mem_cons_self)
      (fresh_script script r1 r' hscript) (by omega)]
    exact ih r1 r' turns hscript (fun t ht => hplain t (List.mem_cons_of_mem s ht)) (by omega)

/-- **A script is parsed** as what its statements add up to. -/
theorem parse_script {script : List Statement} {r : Reading}
    (h : readScript ⟨[], []⟩ script = some r) (hplain : ∀ s ∈ script, s.plain = true) :
    parse (scriptTokens script) = some r.rules := by
  have hloop := complete_script script ⟨[], []⟩ r ((scriptTokens script).length + 1) h hplain
    (Nat.lt_succ_self _)
  rw [outcome, Prod.mk.injEq] at hloop
  rw [parse, hloop.2, if_neg Bool.false_ne_true, hloop.1]

end E2Mail.Sieve
