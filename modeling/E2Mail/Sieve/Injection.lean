import E2Mail.Sieve.Generated

/-!
# What users write does not get out of its quotes

The strings that a user puts into rules come into the script between quotes and in
comments only, and change nothing else in it. Two lists of rules have the same `shape`
if they differ in these strings alone; their scripts then differ in strings between
quotes and in comments alone.

* `SieveRule.strings` — what a rule may put between quotes;
* `SieveRule.shape` — what else of it the script depends on;
* `strings_stay_quoted` — the result.
-/

namespace E2Mail.Sieve

/-! ## What a rule gives to the script -/

/-- The strings of a condition: its headers and its value. -/
def SieveCondition.strings (c : SieveCondition) : List Text :=
  splitList (some c.header) ++ [c.value]

/-- The strings of an action: mailboxes, address, text and flags. -/
def SieveAction.strings (a : SieveAction) : List Text :=
  splitList a.mailbox ++ a.address.toList ++ [rejectText a] ++ splitList a.flag

/-- The strings of a rule. -/
def SieveRule.strings (rule : SieveRule) : List Text :=
  rule.conditions.flatMap SieveCondition.strings ++ rule.actions.flatMap SieveAction.strings

/-- A condition without its strings; how many headers there are is left. -/
def SieveCondition.shape (c : SieveCondition) :
    SieveTestType × SieveAddressPart × SieveConditionOp × Bool × Nat :=
  (c.test, c.part, c.op, c.negated, (splitList (some c.header)).length)

/-- An action without its strings; how many of them there are is left, and whether there
is an address. -/
def SieveAction.shape (a : SieveAction) : SieveActionType × Bool × Nat × Nat × Bool :=
  (a.type, decide (a.copy = some true), (splitList a.mailbox).length, (splitList a.flag).length,
    (a.address.getD []).isEmpty)

/-- A rule without its name and its strings. -/
def SieveRule.shape (rule : SieveRule) :=
  (rule.enabled, rule.conditionJoin, rule.conditions.map SieveCondition.shape,
    rule.actions.map SieveAction.shape)

/-- A token without what is between quotes or in a comment. -/
def Tok.blank (t : Tok) : Tok :=
  match t.k with
  | .quoted | .comment => ⟨t.k, []⟩
  | _ => t

/-! ## Strings between quotes -/

/-- What is between quotes. -/
def quotedValues (ts : List Tok) : List Text :=
  ts.filterMap fun t => if t.k = .quoted then some t.v else none

@[simp] theorem quotedValues_nil : quotedValues [] = [] := rfl

@[simp] theorem quotedValues_append (ts us : List Tok) :
    quotedValues (ts ++ us) = quotedValues ts ++ quotedValues us := List.filterMap_append

@[simp] theorem quotedValues_quoted (v : Text) (ts : List Tok) :
    quotedValues (.quoted v :: ts) = v :: quotedValues ts := rfl

@[simp] theorem quotedValues_punct (c : Char) (ts : List Tok) :
    quotedValues (.punct c :: ts) = quotedValues ts := rfl

@[simp] theorem quotedValues_word (v : Text) (ts : List Tok) :
    quotedValues (.word v :: ts) = quotedValues ts := rfl

@[simp] theorem quotedValues_annot (v : Text) (ts : List Tok) :
    quotedValues (.annot v :: ts) = quotedValues ts := rfl

@[simp] theorem quotedValues_comment (v : Text) (ts : List Tok) :
    quotedValues (.comment v :: ts) = quotedValues ts := rfl

theorem quotedValues_flatMap {α : Type} (f : α → List Tok) (l : List α) :
    quotedValues (l.flatMap f) = l.flatMap fun a => quotedValues (f a) := by
  induction l with
  | nil => rfl
  | cons a l ih => rw [List.flatMap_cons, quotedValues_append, ih, List.flatMap_cons]

@[simp] theorem quotedValues_list (list : StrList) : quotedValues list.tokens = list.items := by
  cases list with
  | one s => rfl
  | many first rest =>
    simp [StrList.tokens, StrList.restTokens, StrList.items, quotedValues_flatMap]

theorem items_listOf {items : List Text} {list : StrList} (h : listOf items = some list) :
    list.items = items := by
  cases items with
  | nil => cases h
  | cons first rest =>
    obtain rfl := Option.some.inj h
    exact StrList.items_of first rest

/-- The strings of a condition are all that is between the quotes of its test. -/
theorem quotedValues_core {c : SieveCondition} {test : Test} (h : c.core = some test) :
    quotedValues test.tokens ⊆ c.strings := by
  rw [SieveCondition.core] at h
  rw [SieveCondition.strings]
  cases htest : c.test with
  | trueTest =>
    rw [htest] at h
    obtain rfl := Option.some.inj h
    simp [Test.tokens]
  | existsTest =>
    rw [htest] at h
    obtain ⟨list, hlist, rfl⟩ := Option.map_eq_some_iff.mp h
    simp [Test.tokens, items_listOf hlist]
  | headerTest =>
    rw [htest] at h
    obtain ⟨list, hlist, rfl⟩ := Option.map_eq_some_iff.mp h
    simp [Test.tokens, TestTag.tokens, items_listOf hlist]
  | addressTest =>
    rw [htest] at h
    obtain rfl := Option.some.inj h
    have hpart : quotedValues ((if c.part = .whole then [] else
        [TestTag.tag c.part.word]).flatMap TestTag.tokens) = [] := by
      split <;> rfl
    have hheaders : quotedValues ((listOf (splitList (some c.header))).toList.flatMap
        StrList.tokens) ⊆ splitList (some c.header) := by
      cases hlist : listOf (splitList (some c.header)) with
      | none => simp
      | some list => simp [items_listOf hlist]
    simp only [Test.tokens, quotedValues_word, quotedValues_append, List.flatMap_append, hpart,
      List.flatMap_cons, List.flatMap_nil, TestTag.tokens, quotedValues_annot, quotedValues_nil,
      List.nil_append, quotedValues_list, StrList.items_one, List.append_nil]
    exact List.append_subset.mpr ⟨List.Subset.trans hheaders (List.subset_append_left _ _),
      List.subset_append_right _ _⟩

theorem quotedValues_condition {c : SieveCondition} {test : Test} (h : c.toTest = some test) :
    quotedValues test.tokens ⊆ c.strings := by
  obtain ⟨core, hcore, rfl⟩ := Option.map_eq_some_iff.mp h
  have hsub := quotedValues_core hcore
  cases c.negated with
  | false => exact hsub
  | true => simpa [Test.tokens] using hsub

theorem quotedValues_command (name : Text) (args : List Arg) :
    quotedValues (Command.tokens ⟨name, args⟩) = args.flatMap fun arg => quotedValues arg.tokens := by
  simp [Command.tokens, quotedValues_flatMap]

/-- The strings of an action are all that is between the quotes of its command. -/
theorem quotedValues_action {a : SieveAction} {command : Command}
    (h : a.toCommand = some command) : quotedValues command.tokens ⊆ a.strings := by
  rw [SieveAction.toCommand] at h
  cases htype : a.type with
  | fileinto =>
    rw [htype] at h
    obtain ⟨list, hlist, rfl⟩ := Option.map_eq_some_iff.mp h
    have hcopy : (if a.copy = some true then [Arg.tag "copy".toList] else []).flatMap
        (fun arg => quotedValues arg.tokens) = [] := by
      split <;> rfl
    rw [quotedValues_command, List.flatMap_append, hcopy]
    simp [Arg.tokens, items_listOf hlist, SieveAction.strings]
  | redirect =>
    rw [htype] at h
    cases haddress : a.address with
    | none =>
      rw [haddress] at h
      cases h
    | some address =>
      rw [haddress] at h
      dsimp only at h
      split at h
      · cases h
      · obtain rfl := Option.some.inj h
        rw [quotedValues_command]
        simp [Arg.tokens, SieveAction.strings, haddress]
  | reject =>
    rw [htype] at h
    obtain rfl := Option.some.inj h
    rw [quotedValues_command]
    simp [Arg.tokens, SieveAction.strings]
  | discard | keep | stop =>
    rw [htype] at h
    obtain rfl := Option.some.inj h
    rw [quotedValues_command]
    exact List.nil_subset _
  | setflag | addflag | removeflag =>
    rw [htype] at h
    obtain ⟨list, hlist, rfl⟩ := Option.map_eq_some_iff.mp h
    rw [quotedValues_command, SieveAction.strings]
    simp only [List.flatMap_cons, List.flatMap_nil, Arg.tokens, quotedValues_list,
      items_listOf hlist, List.append_nil]
    exact List.subset_append_right _ _

theorem quotedValues_commands (rule : SieveRule) :
    quotedValues (blockTokens rule.commands) ⊆ rule.actions.flatMap SieveAction.strings := by
  rw [blockTokens, quotedValues_flatMap, SieveRule.commands, List.flatMap_append]
  refine List.append_subset.mpr ⟨?_, ?_⟩
  · intro v hv
    obtain ⟨command, hcommand, hvalue⟩ := List.mem_flatMap.mp hv
    obtain ⟨a, ha, hsome⟩ := List.mem_filterMap.mp hcommand
    exact List.mem_flatMap.mpr ⟨a, ha, quotedValues_action hsome hvalue⟩
  · cases rule.addsStop <;> exact List.nil_subset _

theorem quotedValues_joinTests (join : Join) (first : Test) (rest : List Test) :
    quotedValues (joinTests join first rest).tokens =
      (first :: rest).flatMap fun t => quotedValues t.tokens := by
  have hrest : ∀ ts : List Test, quotedValues (Test.restTokens ts) =
      ts.flatMap fun t => quotedValues t.tokens := by
    intro ts
    induction ts with
    | nil => rfl
    | cons t ts ih => simp [Test.restTokens, ih]
  cases rest with
  | nil => simp [joinTests]
  | cons next rest => simp [joinTests, Test.tokens, hrest]

theorem quotedValues_conditions {conditions : List SieveCondition} {tests : List Test}
    (h : conditions.mapM SieveCondition.toTest = some tests) :
    (tests.flatMap fun t => quotedValues t.tokens) ⊆
      conditions.flatMap SieveCondition.strings := by
  have hall := mapM_eq_some_iff.mp h
  clear h
  induction hall with
  | nil => exact List.nil_subset _
  | cons hfirst _ ih =>
    rw [List.flatMap_cons, List.flatMap_cons]
    exact List.append_subset.mpr ⟨List.Subset.trans (quotedValues_condition hfirst)
      (List.subset_append_left _ _), List.Subset.trans ih (List.subset_append_right _ _)⟩

/-- **The strings of a rule** are all that is between its quotes. -/
theorem quotedValues_rule (rule : SieveRule) :
    quotedValues (scriptTokens rule.statements) ⊆ rule.strings := by
  rw [SieveRule.statements, scriptTokens_cons, Statement.tokens, List.singleton_append,
    quotedValues_comment, SieveRule.content, SieveRule.strings]
  have hcommands := quotedValues_commands rule
  cases htests : rule.conditions.mapM SieveCondition.toTest with
  | none => exact List.nil_subset _
  | some tests =>
    cases tests with
    | nil =>
      dsimp only
      rw [tokens_commands]
      cases rule.commands.isEmpty with
      | true => exact List.nil_subset _
      | false => exact List.Subset.trans hcommands (List.subset_append_right _ _)
    | cons first rest =>
      simp only [scriptTokens_cons, scriptTokens_nil, Statement.tokens, List.append_nil,
        quotedValues_word, quotedValues_append, quotedValues_punct, quotedValues_nil]
      rw [quotedValues_joinTests]
      exact List.append_subset.mpr ⟨List.Subset.trans (quotedValues_conditions htests)
        (List.subset_append_left _ _), List.Subset.trans hcommands (List.subset_append_right _ _)⟩

/-! ## Comments -/

/-- The comments of a rule: its name. -/
theorem comment_of_rule {rule : SieveRule} {t : Tok} (ht : t ∈ scriptTokens rule.statements)
    (hk : t.k = .comment) : t = .comment (nameComment rule.name) := by
  rw [SieveRule.statements, scriptTokens_cons, Statement.tokens, List.singleton_append] at ht
  obtain rfl | ht := List.mem_cons.mp ht
  · rfl
  · exfalso
    rw [SieveRule.content] at ht
    cases htests : rule.conditions.mapM SieveCondition.toTest with
    | none =>
      rw [htests] at ht
      cases ht
    | some tests =>
      rw [htests] at ht
      cases tests with
      | nil =>
        dsimp only at ht
        rw [tokens_commands] at ht
        exact noComments_block _ t ht hk
      | cons first rest =>
        have hno : NoComments (Statement.ifThen (joinTests rule.conditionJoin first rest)
            rule.commands).tokens := by
          simp [Statement.tokens, Test.noComments_tokens, noComments_block]
        simp only [scriptTokens_cons, scriptTokens_nil, List.append_nil] at ht
        exact hno t ht hk

/-! ## Rules of the same shape -/

/-- The same tokens, but for what is between quotes and in comments. -/
def SameBlank (ts us : List Tok) : Prop := ts.map Tok.blank = us.map Tok.blank

theorem SameBlank.refl (ts : List Tok) : SameBlank ts ts := rfl

theorem SameBlank.append {ts ts' us us' : List Tok} (h : SameBlank ts ts')
    (h' : SameBlank us us') : SameBlank (ts ++ us) (ts' ++ us') := by
  rw [SameBlank, List.map_append, List.map_append, h, h']

theorem SameBlank.cons {t t' : Tok} {ts ts' : List Tok} (ht : t.blank = t'.blank)
    (h : SameBlank ts ts') : SameBlank (t :: ts) (t' :: ts') := by
  rw [SameBlank, List.map_cons, List.map_cons, ht, h]

/-- Lists of as many strings. -/
theorem sameBlank_listOf {items items' : List Text} (h : items.length = items'.length) :
    Option.Rel (fun l l' : StrList => SameBlank l.tokens l'.tokens) (listOf items)
      (listOf items') := by
  have hrest : ∀ {rest rest' : List Text}, rest.length = rest'.length →
      SameBlank (StrList.restTokens rest) (StrList.restTokens rest') := by
    intro rest
    induction rest with
    | nil =>
      intro rest' hlen
      obtain rfl := List.length_eq_zero_iff.mp hlen.symm
      exact .refl _
    | cons s rest ih =>
      intro rest' hlen
      cases rest' with
      | nil => cases hlen
      | cons s' rest' => exact .cons rfl (.cons rfl (ih (Nat.succ.inj hlen)))
  cases items with
  | nil =>
    obtain rfl := List.length_eq_zero_iff.mp h.symm
    exact .none
  | cons first rest =>
    cases items' with
    | nil => cases h
    | cons first' rest' =>
      have hlen := Nat.succ.inj h
      refine .some ?_
      cases rest with
      | nil =>
        obtain rfl := List.length_eq_zero_iff.mp hlen.symm
        exact .cons rfl (.refl _)
      | cons next rest =>
        cases rest' with
        | nil => cases hlen
        | cons next' rest' => exact .cons rfl (.cons rfl ((hrest hlen).append (.refl _)))

theorem sameBlank_core {c c' : SieveCondition} (h : c.shape = c'.shape) :
    Option.Rel (fun t t' : Test => SameBlank t.tokens t'.tokens) c.core c'.core := by
  simp only [SieveCondition.shape, Prod.mk.injEq] at h
  obtain ⟨htest, hpart, hop, -, hlen⟩ := h
  have hlists := sameBlank_listOf hlen
  rw [SieveCondition.core, SieveCondition.core, htest, hpart, hop]
  generalize listOf (splitList (some c.header)) = headers at hlists ⊢
  generalize listOf (splitList (some c'.header)) = headers' at hlists ⊢
  have htags : ∀ (kind : SimpleKind) (tags : List TestTag) {args args' : List StrList},
      SameBlank (args.flatMap StrList.tokens) (args'.flatMap StrList.tokens) →
      SameBlank (Test.tokens (.simple kind tags args)) (Test.tokens (.simple kind tags args')) :=
    fun kind tags _ _ hargs => .cons rfl ((SameBlank.refl _).append hargs)
  have hvalue : SameBlank ([StrList.one c.value].flatMap StrList.tokens)
      ([StrList.one c'.value].flatMap StrList.tokens) := .cons rfl (.refl _)
  cases c'.test with
  | trueTest => exact .some (.refl _)
  | existsTest =>
    cases hlists with
    | none => exact .none
    | some hlist => exact .some (htags _ _ (hlist.append (.refl _)))
  | headerTest =>
    cases hlists with
    | none => exact .none
    | some hlist => exact .some (htags _ _ (hlist.append hvalue))
  | addressTest =>
    refine .some (htags _ _ ?_)
    cases hlists with
    | none => exact hvalue
    | some hlist => exact hlist.append hvalue

theorem sameBlank_condition {c c' : SieveCondition} (h : c.shape = c'.shape) :
    Option.Rel (fun t t' : Test => SameBlank t.tokens t'.tokens) c.toTest c'.toTest := by
  have hnegated : c.negated = c'.negated := by
    simp only [SieveCondition.shape, Prod.mk.injEq] at h
    exact h.2.2.2.1
  have hcore := sameBlank_core h
  rw [SieveCondition.toTest, SieveCondition.toTest, hnegated]
  generalize c.core = core at hcore ⊢
  generalize c'.core = core' at hcore ⊢
  cases hcore with
  | none => exact .none
  | some hsame =>
    refine .some ?_
    cases c'.negated with
    | false => exact hsame
    | true => exact .cons rfl hsame

theorem sameBlank_action {a a' : SieveAction} (h : a.shape = a'.shape) :
    Option.Rel (fun d d' : Command => SameBlank d.tokens d'.tokens) a.toCommand a'.toCommand := by
  simp only [SieveAction.shape, Prod.mk.injEq, decide_eq_decide] at h
  obtain ⟨htype, hcopy, hboxes, hflags, haddress⟩ := h
  have hcommand : ∀ (name : Text) (args args' : List Arg),
      SameBlank (args.flatMap Arg.tokens) (args'.flatMap Arg.tokens) →
      SameBlank (Command.tokens ⟨name, args⟩) (Command.tokens ⟨name, args'⟩) :=
    fun name _ _ hargs => .cons rfl (hargs.append (.refl _))
  have hone : ∀ s s', SameBlank ([Arg.strings (.one s)].flatMap Arg.tokens)
      ([Arg.strings (.one s')].flatMap Arg.tokens) := fun s s' => .cons rfl (.refl _)
  have hlist : ∀ (name : Text) (args : List Arg) {items items' : List Text},
      items.length = items'.length →
      Option.Rel (fun d d' : Command => SameBlank d.tokens d'.tokens)
        ((listOf items).map fun l => ⟨name, args ++ [.strings l]⟩)
        ((listOf items').map fun l => ⟨name, args ++ [.strings l]⟩) := by
    intro name args items items' hlen
    have hlists := sameBlank_listOf hlen
    generalize listOf items = list at hlists ⊢
    generalize listOf items' = list' at hlists ⊢
    cases hlists with
    | none => exact .none
    | some hsame =>
      refine .some (hcommand _ _ _ ?_)
      rw [List.flatMap_append, List.flatMap_append]
      exact (SameBlank.refl _).append (hsame.append (.refl _))
  cases htype' : a'.type with
  | fileinto =>
    rw [SieveAction.toCommand, SieveAction.toCommand, htype, htype']
    dsimp only
    rw [if_congr hcopy rfl rfl]
    exact hlist _ _ hboxes
  | redirect =>
    rw [SieveAction.toCommand_redirect (htype.trans htype'), SieveAction.toCommand_redirect htype',
      haddress, htype]
    cases (a'.address.getD []).isEmpty with
    | true => exact .none
    | false => exact .some (hcommand _ _ _ (hone _ _))
  | reject =>
    rw [SieveAction.toCommand, SieveAction.toCommand, htype, htype']
    exact .some (hcommand _ _ _ (hone _ _))
  | discard | keep | stop =>
    rw [SieveAction.toCommand, SieveAction.toCommand, htype, htype']
    exact .some (.refl _)
  | setflag | addflag | removeflag =>
    rw [SieveAction.toCommand, SieveAction.toCommand, htype, htype']
    exact hlist _ [] hflags

theorem forall₂_of_map_eq {α β : Type} {f : α → β} {l l' : List α} (h : l.map f = l'.map f) :
    List.Forall₂ (fun a b => f a = f b) l l' := by
  have hmapped : List.Forall₂ (· = ·) (l.map f) (l'.map f) := by
    rw [List.forall₂_eq_eq_eq]
    exact h
  exact List.forall₂_map_right_iff.mp (List.forall₂_map_left_iff.mp hmapped)

theorem sameBlank_flatMap {α : Type} {f : α → List Tok} {l l' : List α}
    (h : List.Forall₂ (fun a b => SameBlank (f a) (f b)) l l') :
    SameBlank (l.flatMap f) (l'.flatMap f) := by
  induction h with
  | nil => exact .refl _
  | cons hfirst _ ih =>
    rw [List.flatMap_cons, List.flatMap_cons]
    exact hfirst.append ih

theorem addsStop_of_shape {rule rule' : SieveRule}
    (h : rule.actions.map SieveAction.shape = rule'.actions.map SieveAction.shape) :
    rule.addsStop = rule'.addsStop := by
  have hany : ∀ (actions : List SieveAction) (p : SieveActionType → Bool),
      (actions.any fun a => p a.type) = (actions.map SieveAction.shape).any fun s => p s.1 := by
    intro actions p
    rw [List.any_map]
    rfl
  rw [SieveRule.addsStop, SieveRule.addsStop, hany rule.actions (·.terminal),
    hany rule'.actions (·.terminal), hany rule.actions (· == .stop),
    hany rule'.actions (· == .stop), h]

theorem sameBlank_commands {rule rule' : SieveRule}
    (h : rule.actions.map SieveAction.shape = rule'.actions.map SieveAction.shape) :
    List.Forall₂ (fun d d' : Command => SameBlank d.tokens d'.tokens) rule.commands
      rule'.commands := by
  have hactions := forall₂_of_map_eq h
  rw [SieveRule.commands, SieveRule.commands, addsStop_of_shape h]
  refine List.rel_append ?_ (List.forall₂_same.mpr fun d _ => .refl _)
  clear h
  generalize rule.actions = actions at hactions ⊢
  generalize rule'.actions = actions' at hactions ⊢
  induction hactions with
  | nil => exact .nil
  | @cons a a' _ _ hfirst _ ih =>
    have hcommand := sameBlank_action hfirst
    rw [List.filterMap_cons, List.filterMap_cons]
    generalize a.toCommand = command at hcommand ⊢
    generalize a'.toCommand = command' at hcommand ⊢
    cases hcommand with
    | none => exact ih
    | some hsame => exact .cons hsame ih

theorem sameBlank_tests {conditions conditions' : List SieveCondition}
    (h : conditions.map SieveCondition.shape = conditions'.map SieveCondition.shape) :
    Option.Rel (List.Forall₂ fun t t' : Test => SameBlank t.tokens t'.tokens)
      (conditions.mapM SieveCondition.toTest) (conditions'.mapM SieveCondition.toTest) := by
  have hall := forall₂_of_map_eq h
  clear h
  induction hall with
  | nil => exact .some .nil
  | @cons c c' conditions conditions' hfirst _ ih =>
    have htest := sameBlank_condition hfirst
    rw [List.mapM_cons, List.mapM_cons]
    generalize c.toTest = test at htest ⊢
    generalize c'.toTest = test' at htest ⊢
    generalize conditions.mapM SieveCondition.toTest = tests at ih ⊢
    generalize conditions'.mapM SieveCondition.toTest = tests' at ih ⊢
    cases htest with
    | none => exact .none
    | some hsame =>
      cases ih with
      | none => exact .none
      | some hrest => exact .some (.cons hsame hrest)

theorem sameBlank_joinTests (join : Join) {first first' : Test} {rest rest' : List Test}
    (h : List.Forall₂ (fun t t' : Test => SameBlank t.tokens t'.tokens) (first :: rest)
      (first' :: rest')) :
    SameBlank (joinTests join first rest).tokens (joinTests join first' rest').tokens := by
  have hrest : ∀ {ts ts' : List Test},
      List.Forall₂ (fun t t' : Test => SameBlank t.tokens t'.tokens) ts ts' →
      SameBlank (Test.restTokens ts) (Test.restTokens ts') := by
    intro ts ts' hts
    induction hts with
    | nil => exact .refl _
    | cons hfirst _ ih => exact .cons rfl (hfirst.append ih)
  cases h with
  | cons hfirst htail =>
    cases htail with
    | nil => exact hfirst
    | cons hnext htail =>
      exact .cons rfl (.cons rfl ((hfirst.append (hrest (.cons hnext htail))).append (.refl _)))

/-- **Rules of the same shape** become the same tokens, but for strings and comments. -/
theorem sameBlank_rule {rule rule' : SieveRule} (h : rule.shape = rule'.shape) :
    SameBlank (scriptTokens rule.statements) (scriptTokens rule'.statements) := by
  simp only [SieveRule.shape, Prod.mk.injEq] at h
  obtain ⟨-, hjoin, hconditions, hactions⟩ := h
  have hcommands := sameBlank_commands hactions
  have hblock : SameBlank (blockTokens rule.commands) (blockTokens rule'.commands) :=
    sameBlank_flatMap hcommands
  have htests := sameBlank_tests hconditions
  rw [SieveRule.statements, SieveRule.statements, scriptTokens_cons, scriptTokens_cons,
    SieveRule.content, SieveRule.content, hjoin]
  refine SameBlank.append (.cons rfl (.refl _)) ?_
  generalize rule.conditions.mapM SieveCondition.toTest = tests at htests ⊢
  generalize rule'.conditions.mapM SieveCondition.toTest = tests' at htests ⊢
  cases htests with
  | none => exact .refl _
  | some hall =>
    cases hall with
    | nil =>
      have hempty : rule.commands.isEmpty = rule'.commands.isEmpty := by
        generalize rule.commands = commands at hcommands ⊢
        generalize rule'.commands = commands' at hcommands ⊢
        cases hcommands <;> rfl
      dsimp only
      rw [tokens_commands, tokens_commands, hempty]
      cases rule'.commands.isEmpty with
      | true => exact .refl _
      | false => exact hblock
    | cons hfirst hrest =>
      have htest := sameBlank_joinTests rule'.conditionJoin (.cons hfirst hrest)
      simp only [scriptTokens_cons, scriptTokens_nil, List.append_nil, Statement.tokens]
      exact .cons rfl (htest.append (.cons rfl (hblock.append (.refl _))))

theorem actionRequires_of_shape {a a' : SieveAction} (h : a.shape = a'.shape)
    (req : List Text) : actionRequires a req = actionRequires a' req := by
  simp only [SieveAction.shape, Prod.mk.injEq, decide_eq_decide] at h
  obtain ⟨htype, hcopy, -⟩ := h
  simp only [actionRequires, htype, hcopy]

theorem reqList_of_shape {enabled enabled' : List SieveRule}
    (h : enabled.map SieveRule.shape = enabled'.map SieveRule.shape) :
    reqList enabled = reqList enabled' := by
  have hactions : (enabled.flatMap (·.actions)).map SieveAction.shape =
      (enabled'.flatMap (·.actions)).map SieveAction.shape := by
    have hmap : ∀ l : List SieveRule, (l.flatMap (·.actions)).map SieveAction.shape =
        (l.map SieveRule.shape).flatMap (·.2.2.2) := by
      intro l
      rw [List.map_flatMap, List.flatMap_map]
      rfl
    rw [hmap, hmap, h]
  have hreq : ∀ req : List Text, (enabled.flatMap (·.actions)).foldl (fun r a => actionRequires a r) req =
      (enabled'.flatMap (·.actions)).foldl (fun r a => actionRequires a r) req := by
    have hall := forall₂_of_map_eq hactions
    generalize enabled.flatMap (·.actions) = actions at hall ⊢
    generalize enabled'.flatMap (·.actions) = actions' at hall ⊢
    induction hall with
    | nil => exact fun _ => rfl
    | cons hfirst _ ih =>
      intro req
      rw [List.foldl_cons, List.foldl_cons, actionRequires_of_shape hfirst, ih]
  rw [reqList, reqList, requires, requires, hreq]

theorem shape_filter {rules rules' : List SieveRule}
    (h : rules.map SieveRule.shape = rules'.map SieveRule.shape) :
    (rules.filter (·.enabled)).map SieveRule.shape =
      (rules'.filter (·.enabled)).map SieveRule.shape := by
  have hmap : ∀ l : List SieveRule, (l.filter (·.enabled)).map SieveRule.shape =
      (l.map SieveRule.shape).filter (·.1) := by
    intro l
    rw [List.filter_map]
    rfl
  rw [hmap, hmap, h]

theorem sameBlank_generated {rules rules' : List SieveRule}
    (h : rules.map SieveRule.shape = rules'.map SieveRule.shape) :
    SameBlank (scriptTokens (generated rules)) (scriptTokens (generated rules')) := by
  have hshape := shape_filter h
  have hempty : (rules.filter (·.enabled)).isEmpty = (rules'.filter (·.enabled)).isEmpty := by
    rw [← List.isEmpty_map, hshape, List.isEmpty_map]
  rw [generated, generated, scriptTokens_cons, scriptTokens_cons, scriptTokens_append,
    scriptTokens_append, reqList_of_shape hshape, hempty]
  refine (SameBlank.refl _).append ((SameBlank.refl _).append ?_)
  cases (rules'.filter (·.enabled)).isEmpty with
  | true => exact .refl _
  | false =>
    have hrules : SameBlank ((rules.filter (·.enabled)).flatMap fun r => scriptTokens r.statements)
        ((rules'.filter (·.enabled)).flatMap fun r => scriptTokens r.statements) :=
      sameBlank_flatMap ((forall₂_of_map_eq hshape).imp fun _ _ hrule => sameBlank_rule hrule)
    rw [if_neg Bool.false_ne_true, if_neg Bool.false_ne_true, scriptTokens, scriptTokens,
      List.flatMap_assoc, List.flatMap_assoc]
    exact hrules

/-! ## The result -/

theorem mem_generated {rules : List SieveRule} {t : Tok} (ht : t ∈ scriptTokens (generated rules)) :
    t = .comment "Generated by e2Mail Sieve Rule Builder".toList ∨
    t ∈ scriptTokens (requireStatement (reqList (rules.filter (·.enabled)))) ∨
    t = .comment "No rules defined".toList ∨
    ∃ rule ∈ rules, rule.enabled = true ∧ t ∈ scriptTokens rule.statements := by
  rw [generated, scriptTokens_cons, scriptTokens_append, List.mem_append, List.mem_append] at ht
  obtain ht | ht | ht := ht
  · exact .inl (List.mem_singleton.mp ht)
  · exact .inr (.inl ht)
  · refine .inr (.inr ?_)
    split at ht
    · rw [scriptTokens_cons, scriptTokens_nil, List.append_nil] at ht
      exact .inl (List.mem_singleton.mp ht)
    · rw [scriptTokens, List.flatMap_assoc] at ht
      obtain ⟨rule, hrule, hmem⟩ := List.mem_flatMap.mp ht
      obtain ⟨hmem', henabled⟩ := List.mem_filter.mp hrule
      exact .inr ⟨rule, hmem', henabled, hmem⟩

theorem mem_quotedValues {ts : List Tok} {t : Tok} (ht : t ∈ ts) (hk : t.k = .quoted) :
    t.v ∈ quotedValues ts :=
  List.mem_filterMap.mpr ⟨t, ht, if_pos hk⟩

/-- What is required is all that is between the quotes of the statement for it. -/
theorem quotedValues_require (exts : List Text) :
    quotedValues (scriptTokens (requireStatement exts)) = exts := by
  cases exts with
  | nil => rfl
  | cons first rest => simp [requireStatement, Statement.tokens, StrList.items]

theorem noComments_require (exts : List Text) :
    NoComments (scriptTokens (requireStatement exts)) := by
  cases exts with
  | nil => simp [requireStatement]
  | cons first rest => simp [requireStatement, Statement.tokens]

/-- **Users' strings stay between quotes and in comments.** If no enabled rule has a line
break in its name, the script is read as the tokens of its statements, in which every
string of a user is between quotes, as it is, or in the comment with the name of its rule.
Rules of the same shape require the same extensions and become the same tokens, but for
these strings. -/
theorem strings_stay_quoted (rules : List SieveRule)
    (hname : ∀ rule ∈ rules, rule.enabled = true → '\n' ∉ rule.name) :
    tokenize (rulesToSieve rules) = some (scriptTokens (generated rules)) ∧
    (∀ t ∈ scriptTokens (generated rules), t.k = .quoted →
      t.v ∈ requireOrder ∨ ∃ rule ∈ rules, rule.enabled = true ∧ t.v ∈ rule.strings) ∧
    (∀ t ∈ scriptTokens (generated rules), t.k = .comment →
      t.v = "Generated by e2Mail Sieve Rule Builder".toList ∨ t.v = "No rules defined".toList ∨
        ∃ rule ∈ rules, rule.enabled = true ∧ t.v = nameComment rule.name) ∧
    ∀ rules' : List SieveRule, rules'.map SieveRule.shape = rules.map SieveRule.shape →
      reqList (rules'.filter (·.enabled)) = reqList (rules.filter (·.enabled)) ∧
      (scriptTokens (generated rules')).map Tok.blank =
        (scriptTokens (generated rules)).map Tok.blank := by
  refine ⟨tokenize_generated rules hname, fun t ht hk => ?_, fun t ht hk => ?_,
    fun rules' hshape => ⟨reqList_of_shape (shape_filter hshape), sameBlank_generated hshape⟩⟩
  · obtain rfl | ht | rfl | ⟨rule, hrule, henabled, ht⟩ := mem_generated ht
    · cases hk
    · have hv := mem_quotedValues ht hk
      rw [quotedValues_require] at hv
      exact .inl (mem_reqList hv)
    · cases hk
    · exact .inr ⟨rule, hrule, henabled, quotedValues_rule rule (mem_quotedValues ht hk)⟩
  · obtain rfl | ht | rfl | ⟨rule, hrule, henabled, ht⟩ := mem_generated ht
    · exact .inl rfl
    · exact absurd hk (noComments_require _ t ht)
    · exact .inr (.inl rfl)
    · obtain rfl := comment_of_rule ht hk
      exact .inr (.inr ⟨rule, hrule, henabled, rfl⟩)

/-- A rule whose strings try to get out of their quotes. -/
def breakOut : SieveRule where
  name := "x] keep; # rule:[".toList
  enabled := true
  conditionJoin := .anyof
  conditions := [⟨.headerTest, .whole, .isOp, true, "From, \" \"".toList, "\\\"); discard; \n#".toList⟩]
  actions := [{ type := .fileinto, mailbox := some "a\", \"b\\".toList }]

theorem strings_stay_quoted_breakOut :
    (∀ rule ∈ [breakOut], rule.enabled = true → '\n' ∉ rule.name) ∧
      tokenize (rulesToSieve [breakOut]) = some (scriptTokens (generated [breakOut])) := by
  have hname : ∀ rule ∈ [breakOut], rule.enabled = true → '\n' ∉ rule.name := by decide
  exact ⟨hname, (strings_stay_quoted [breakOut] hname).1⟩

end E2Mail.Sieve
