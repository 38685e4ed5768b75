import E2Mail.Sieve.Meaning

/-!
# What the parser accepts

Whatever the parser makes of a script, apart from its comments, is what `Meaning` says of
the syntax that it took: a parser accounts for the tokens that it takes. There is one way
for it to give up without an error: at the end of the script in a block that is not closed.

* `Accounts` — what a parser made of its tokens, with a rule for each step of it;
* `sound_test`, `sound_command`, `sound_block` — the parts of a script;
* `parse_accepts` — whole scripts.
-/

namespace E2Mail.Sieve

open Parse (null error peek next hasError orNull fuel)

variable {α β : Type}

/-! ## Tokens apart from comments -/

/-- The tokens that are no comments. -/
def codeOf (ts : List Tok) : List Tok := ts.filter fun t => t.k != .comment

namespace Parser

/-- What is left of the script, apart from comments. -/
def code (p : Parser) : List Tok := codeOf p.toks

theorem peek_eq (p : Parser) : p.peek = p.code.head? := by
  rw [peek, skipped, code, codeOf, List.head?_filter, List.find?_eq_head?_dropWhile_not]
  congr 2
  exact funext fun t => (Bool.not_not _).symm

theorem code_next (p : Parser) : p.next.code = p.code.tail := by
  obtain ⟨ts, e⟩ := p
  show codeOf (ts.dropWhile fun t => t.k == .comment).tail = (codeOf ts).tail
  induction ts with
  | nil => rfl
  | cons t ts ih =>
    by_cases ht : t.k = .comment
    · rw [List.dropWhile_cons_of_pos (by simpa using ht), ih, codeOf, codeOf,
        List.filter_cons_of_neg (by simpa using ht)]
    · rw [List.dropWhile_cons_of_neg (by simpa using ht), codeOf, codeOf,
        List.filter_cons_of_pos (by simpa using ht)]
      rfl

theorem code_of_peek {p : Parser} {t : Tok} (h : p.peek = some t) : p.code = t :: p.next.code := by
  rw [peek_eq] at h
  rw [code_next]
  exact List.eq_cons_of_mem_head? h

theorem code_of_end {p : Parser} (h : p.peek = none) : p.code = [] := by
  rw [peek_eq] at h
  exact List.head?_eq_none_iff.mp h

end Parser

/-! ## Runs that account for their tokens -/

/-- What the parser did from `p` on. -/
structure Accounts (x : Parse α) (p : Parser) (S : α → List Tok → Prop)
    (N : List Tok → Prop) : Prop where
  /-- with a result, the tokens it took are such as the result needs -/
  some : ∀ a q, x p = (some a, q) → ∃ used, p.code = used ++ q.code ∧ S a used
  /-- without one there is an error, or the script is at its end -/
  none : ∀ q, x p = (none, q) → q.error = true ∨ (q.code = [] ∧ N p.code)

/-- There is always an error. -/
abbrev Never : List Tok → Prop := fun _ => False

namespace Accounts

variable {p : Parser} {S : α → List Tok → Prop} {R : β → List Tok → Prop} {N : List Tok → Prop}

/-- Only the run matters. -/
theorem of_run {x y : Parse α} (hrun : x p = y p) (h : Accounts y p S N) : Accounts x p S N :=
  ⟨fun a q hx => h.some a q (hrun ▸ hx), fun q hx => h.none q (hrun ▸ hx)⟩

theorem pure {a : α} (h : S a []) : Accounts (Pure.pure a) p S N := by
  refine ⟨fun b q hrun => ?_, fun q hrun => ?_⟩
  · cases hrun
    exact ⟨[], rfl, h⟩
  · cases hrun

theorem error : Accounts Parse.error p S N := by
  refine ⟨fun b q hrun => ?_, fun q hrun => ?_⟩
  · cases hrun
  · cases hrun
    exact .inl rfl

theorem next_error : Accounts (Parse.next >>= fun _ => (Parse.error : Parse α)) p S N := by
  refine ⟨fun b q hrun => ?_, fun q hrun => ?_⟩
  · cases hrun
  · cases hrun
    exact .inl rfl

/-- First `x`, and then what `f` makes of its result. -/
theorem bind {x : Parse α} {f : α → Parse β} (hx : Accounts x p S Never)
    (hf : ∀ a q used, p.code = used ++ q.code → S a used →
      Accounts (f a) q (fun b more => R b (used ++ more)) (fun more => N (used ++ more))) :
    Accounts (x >>= f) p R N := by
  refine ⟨fun b q hrun => ?_, fun q hrun => ?_⟩
  · rw [Parse.bind_eq] at hrun
    split at hrun
    · cases hrun
    · rename_i a q' hrunx
      obtain ⟨used, hcode, hS⟩ := hx.some a q' hrunx
      obtain ⟨more, hmore, hR⟩ := (hf a q' used hcode hS).some b q hrun
      exact ⟨used ++ more, by rw [hcode, hmore, List.append_assoc], hR⟩
  · rw [Parse.bind_eq] at hrun
    split at hrun
    · rename_i q' hrunx
      cases hrun
      obtain herror | ⟨-, hnever⟩ := hx.none q hrunx
      · exact .inl herror
      · exact hnever.elim
    · rename_i a q' hrunx
      obtain ⟨used, hcode, hS⟩ := hx.some a q' hrunx
      obtain herror | ⟨hend, hN⟩ := (hf a q' used hcode hS).none q hrun
      · exact .inl herror
      · exact .inr ⟨hend, by rw [hcode]; exact hN⟩

/-- The token that comes next, if there is one, is looked at. -/
theorem peek {f : Option Tok → Parse β} (h : ∀ t, p.peek = t → Accounts (f t) p R N) :
    Accounts (Parse.peek >>= f) p R N := .of_run (y := f p.peek) rfl (h p.peek rfl)

/-- It is taken. -/
theorem next {f : Unit → Parse β} {t : Tok} (ht : p.peek = Option.some t)
    (h : Accounts (f ()) p.next (fun b more => R b (t :: more)) (fun more => N (t :: more))) :
    Accounts (Parse.next >>= f) p R N := by
  have hcode := Parser.code_of_peek ht
  refine ⟨fun b q hrun => ?_, fun q hrun => ?_⟩
  · obtain ⟨more, hmore, hR⟩ := h.some b q hrun
    exact ⟨t :: more, by rw [hcode, hmore, List.cons_append], hR⟩
  · obtain herror | ⟨hend, hN⟩ := h.none q hrun
    · exact .inl herror
    · exact .inr ⟨hend, by rw [hcode]; exact hN⟩

theorem fuel {f : Nat → Parse β} (h : ∀ turns, Accounts (f turns) p R N) :
    Accounts (Parse.fuel >>= f) p R N := .of_run (y := f (p.toks.length + 1)) rfl (h _)

/-- Without a result of `x` there is an error. -/
theorem orNull {x : Parse α} {f : Option α → Parse β} (hnone : f Option.none = Parse.error)
    (h : Accounts (x >>= fun a => f (Option.some a)) p R N) :
    Accounts (Parse.orNull x >>= f) p R N := by
  have hbind : (Parse.orNull x >>= f) p = f (x p).1 (x p).2 := rfl
  cases hrun : x p with
  | mk result q =>
    cases result with
    | some a => exact .of_run (by rw [hbind, Parse.bind_eq, hrun]) h
    | none =>
      rw [hrun] at hbind
      dsimp only at hbind
      rw [hnone] at hbind
      refine ⟨fun b q' hrun' => ?_, fun q' hrun' => .inl ?_⟩
      · rw [hbind] at hrun'
        cases hrun'
      · rw [hbind] at hrun'
        cases hrun'
        rfl

/-- The parser gives up at the end of the script. -/
theorem null (hend : p.code = []) (h : N []) : Accounts Parse.null p S N := by
  refine ⟨fun a q hrun => ?_, fun q hrun => ?_⟩
  · cases hrun
  · cases hrun
    exact .inr ⟨hend, hend ▸ h⟩

/-- Once there is an error there is nothing to account for. -/
theorem hasError {x : Parse β} (h : p.error = false → Accounts x p R N) :
    Accounts (Parse.hasError >>= fun e => if e then Parse.null else x) p R N := by
  cases herror : p.error with
  | false =>
    refine .of_run (y := x) ?_ (h herror)
    show (if p.error then Parse.null else x) p = x p
    rw [herror, if_neg Bool.false_ne_true]
  | true =>
    have hrun : (Parse.hasError >>= fun e => if e then Parse.null else x) p = (Option.none, p) := by
      show (if p.error then Parse.null else x) p = _
      rw [herror, if_pos rfl]
      rfl
    refine ⟨fun a q h => ?_, fun q h => .inl ?_⟩
    · rw [hrun] at h
      cases h
    · rw [hrun] at h
      cases h
      exact herror

/-- Less may be said of the result, -/
theorem imp {S' : α → List Tok → Prop} {x : Parse α} (h : Accounts x p S N)
    (hS : ∀ a used, S a used → S' a used) : Accounts x p S' N := by
  refine ⟨fun a q hrun => ?_, h.none⟩
  obtain ⟨used, hcode, ha⟩ := h.some a q hrun
  exact ⟨used, hcode, hS a used ha⟩

/-- and of giving up. -/
theorem impNull {N' : List Tok → Prop} {x : Parse α} (h : Accounts x p S N)
    (hN : ∀ used, N used → N' used) : Accounts x p S N' :=
  ⟨h.some, fun q hrun => (h.none q hrun).imp_right fun hend => ⟨hend.1, hN _ hend.2⟩⟩

end Accounts

/-! ## Strings -/

theorem eq_punct {t : Option Tok} {c : Char} (h : isPunct t c = true) : t = some (.punct c) := by
  simpa [isPunct] using h

theorem sound_punct (c : Char) (p : Parser) :
    Accounts (expectPunct c) p (fun _ used => used = [.punct c]) Never := by
  rw [expectPunct]
  refine .peek fun t ht => ?_
  split
  · rename_i hc
    rw [eq_punct hc] at ht
    have hnext := Accounts.next (f := Pure.pure) (R := fun _ used => used = [.punct c]) (N := Never) ht
      (.pure rfl)
    exact hnext
  · exact .error

theorem sound_items (turns : Nat) : ∀ (items : List Text) (p : Parser),
    Accounts (parseItems turns items) p
      (fun all used => ∃ first more, all = items ++ first :: more ∧
        used = .quoted first :: (StrList.restTokens more ++ [.punct ']'])) Never := by
  induction turns with
  | zero => exact fun _ _ => .error
  | succ turns ih =>
    intro items p
    rw [parseItems]
    refine .peek fun t ht => ?_
    split
    · rename_i v
      refine .next ht (.peek fun sep hsep => ?_)
      split
      · rename_i hcomma
        rw [eq_punct hcomma] at hsep
        refine .next hsep ((ih (items ++ [v]) _).imp ?_)
        rintro all used ⟨first, more, rfl, rfl⟩
        exact ⟨v, first :: more, by simp, rfl⟩
      · split
        · rename_i hclose
          rw [eq_punct hclose] at hsep
          exact .next hsep (.pure ⟨v, [], rfl, rfl⟩)
        · exact .error
    · exact .error

/-- **Strings** are those of a list. -/
theorem sound_strings (p : Parser) :
    Accounts parseStringList p
      (fun items used => ∃ list : StrList, items = list.items ∧ used = list.tokens) Never := by
  rw [parseStringList]
  refine .peek fun t ht => ?_
  split
  · rename_i v
    exact .next ht (.pure ⟨.one v, rfl, rfl⟩)
  · split
    · rename_i hopen
      rw [eq_punct hopen] at ht
      refine .next ht (.fuel fun turns => (sound_items turns [] _).imp ?_)
      rintro all used ⟨first, more, rfl, rfl⟩
      exact ⟨.many first more, rfl, rfl⟩
    · exact .error

theorem sound_lists (turns : Nat) : ∀ (lists : List (List Text)) (p : Parser),
    Accounts (parseLists turns lists) p
      (fun all used => ∃ args : List StrList, all = lists ++ args.map StrList.items ∧
        used = args.flatMap StrList.tokens) Never := by
  induction turns with
  | zero => exact fun _ _ => .error
  | succ turns ih =>
    intro lists p
    rw [parseLists]
    refine .peek fun t _ => ?_
    split
    · refine .bind (sound_strings p) ?_
      rintro items q used _ ⟨list, rfl, rfl⟩
      refine (ih (lists ++ [list.items]) q).imp ?_
      rintro all more ⟨args, rfl, rfl⟩
      exact ⟨list :: args, by simp, by simp⟩
    · exact .pure ⟨[], (List.append_nil lists).symm, rfl⟩

/-! ## Tests -/

theorem tag_of_op {v : Text} {op : SieveConditionOp} (h : tagOp v = some op) :
    ∃ name, v = ':' :: name := by
  unfold tagOp at h
  split at h
  · exact ⟨_, ‹_›⟩
  · split at h
    · exact ⟨_, ‹_›⟩
    · split at h
      · exact ⟨_, ‹_›⟩
      · cases h

theorem tag_of_part {v : Text} {part : SieveAddressPart} (h : tagPart v = some part) :
    ∃ name, v = ':' :: name := by
  unfold tagPart at h
  split at h
  · exact ⟨_, ‹_›⟩
  · split at h
    · exact ⟨_, ‹_›⟩
    · split at h
      · exact ⟨_, ‹_›⟩
      · split at h
        · exact ⟨_, ‹_›⟩
        · cases h

/-- **The tags of a test** are read as they are. -/
theorem sound_tags (turns : Nat) : ∀ (op : Option SieveConditionOp) (part : SieveAddressPart)
    (p : Parser), Accounts (parseTestAnnotations turns op part) p
      (fun read used => ∃ tags : List TestTag, readTags tags op part = some read ∧
        used = tags.flatMap TestTag.tokens) Never := by
  induction turns with
  | zero => exact fun _ _ _ => .error
  | succ turns ih =>
    intro op part p
    rw [parseTestAnnotations]
    refine .peek fun t ht => ?_
    split
    · rename_i v
      refine .next ht ?_
      split
      · rename_i _ newOp hop
        split
        · rename_i hcond
          obtain ⟨name, rfl⟩ := tag_of_op hop
          refine (ih (some newOp) part _).imp ?_
          rintro read used ⟨tags, hread, rfl⟩
          refine ⟨.tag name :: tags, ?_, rfl⟩
          rw [readTags, hop]
          dsimp only
          rw [if_pos hcond, hread]
        · exact .error
      · rename_i newPart hop hpart
        split
        · rename_i hcond
          obtain ⟨name, rfl⟩ := tag_of_part hpart
          refine (ih op newPart _).imp ?_
          rintro read used ⟨tags, hread, rfl⟩
          refine ⟨.tag name :: tags, ?_, rfl⟩
          rw [readTags, hop, hpart]
          dsimp only
          rw [if_pos hcond, hread]
        · exact .error
      · split
        · rename_i hcomparator
          subst hcomparator
          refine .peek fun s hs => ?_
          split
          · rename_i value
            refine .next hs ((ih op part _).imp ?_)
            rintro read used ⟨tags, hread, rfl⟩
            exact ⟨.comparator (some value) :: tags, hread, rfl⟩
          · refine (ih op part _).imp ?_
            rintro read used ⟨tags, hread, rfl⟩
            exact ⟨.comparator none :: tags, hread, rfl⟩
        · exact .error
    · exact .pure ⟨[], rfl, rfl⟩

theorem sound_simple {kind : SimpleKind} {p : Parser} (h : p.peek = some (.word kind.word)) :
    Accounts (parseSimpleTest kind) p
      (fun s used => ∃ tags args, simpleNode kind tags args = some s ∧
        used = (Test.simple kind tags args).tokens) Never := by
  rw [parseSimpleTest]
  refine .next h (.fuel fun turns => .bind (sound_tags turns none .whole _) ?_)
  rintro read q used _ ⟨tags, hread, rfl⟩
  refine .fuel fun turns => .bind (sound_lists turns [] q) ?_
  rintro lists q used _ ⟨args, rfl, rfl⟩
  rw [List.nil_append]
  split
  · exact .error
  · rename_i headers values hvalues
    refine .pure ⟨tags, args, ?_, by rw [List.append_nil]; rfl⟩
    rw [simpleNode, hread, hvalues]

theorem kind_of_word {v : Text} {kind : SimpleKind} (h : simpleKind v = some kind) :
    v = kind.word := by
  unfold simpleKind at h
  split at h
  · cases h
    assumption
  · split at h
    · cases h
      assumption
    · split at h
      · cases h
        assumption
      · cases h

theorem join_of_word {v : Text} {join : Join} (h : joinOf v = some join) : v = join.word := by
  unfold joinOf at h
  split at h
  · cases h
    assumption
  · split at h
    · cases h
      assumption
    · cases h

theorem eq_word {t : Tok} (h : ¬t.k ≠ .word) : t = .word t.v := by
  obtain ⟨k, v⟩ := t
  obtain rfl : k = .word := not_not.mp h
  rfl

/-- What the parser makes of the tests in a list. -/
def SoundChildren (turns : Nat) : Prop :=
  ∀ (negDepth : Nat) (before : List TestNode) (p : Parser),
    Accounts (parseChildren turns negDepth before) p
      (fun all used => ∃ (first : Test) (more : List Test) (child : TestNode)
        (children : List TestNode), all = before ++ child :: children ∧
        first.node negDepth = some child ∧ Test.nodes negDepth more = some children ∧
        used = first.tokens ++ Test.restTokens more) Never

/-- What it makes of a test. -/
def SoundTest (turns : Nat) : Prop :=
  ∀ (negDepth : Nat) (p : Parser), Accounts (parseTest turns negDepth) p
    (fun n used => ∃ t : Test, t.node negDepth = some n ∧ used = t.tokens) Never

theorem sound_children {turns : Nat} (htest : SoundTest turns) (hchildren : SoundChildren turns) :
    SoundChildren (turns + 1) := by
  intro negDepth before p
  rw [parseChildren]
  refine .bind (htest negDepth p) ?_
  rintro child q used _ ⟨first, hfirst, rfl⟩
  refine .peek fun t ht => ?_
  split
  · rename_i hcomma
    rw [eq_punct hcomma] at ht
    refine .next ht ((hchildren negDepth (before ++ [child]) _).imp ?_)
    rintro all used ⟨second, more, next, children, rfl, hsecond, hmore, rfl⟩
    refine ⟨first, second :: more, child, next :: children, by simp, hfirst, ?_, rfl⟩
    rw [Test.nodes, hsecond, hmore]
  · exact .pure ⟨first, [], child, [], rfl, hfirst, rfl, rfl⟩

theorem sound_testStep {turns : Nat} (htest : SoundTest turns) (hchildren : SoundChildren turns) :
    SoundTest (turns + 1) := by
  intro negDepth p
  rw [parseTest]
  refine .peek fun t ht => ?_
  split
  · exact .error
  · rename_i t
    split
    · rename_i hparen
      subst hparen
      refine .next ht (.bind (htest negDepth _) ?_)
      rintro inner q used _ ⟨t, ht, rfl⟩
      refine .bind (sound_punct ')' q) ?_
      rintro _ q used _ rfl
      exact .pure ⟨.paren t, ht, by simp [Test.tokens]⟩
    · split
      · exact .error
      · rename_i hword
        have hword := eq_word hword
        generalize t.v = v at hword
        subst hword
        split
        · rename_i htrue
          obtain rfl : v = "true".toList := htrue
          exact .next ht (.pure ⟨.truth, rfl, rfl⟩)
        · split
          · rename_i kind hkind
            obtain rfl := kind_of_word hkind
            refine .bind (sound_simple ht) ?_
            rintro s q used _ ⟨tags, args, hnode, rfl⟩
            refine .pure ⟨.simple kind tags args, ?_, List.append_nil _⟩
            rw [Test.node, hnode]
            rfl
          · split
            · rename_i hnot
              obtain rfl : v = "not".toList := hnot
              refine .next ht ?_
              split
              · exact .error
              · rename_i hdepth
                refine .orNull rfl (.bind (htest (negDepth + 1) _) ?_)
                rintro child q used _ ⟨t, ht, rfl⟩
                split
                · rename_i s heq
                  obtain rfl := Option.some.inj heq
                  refine .pure ⟨.neg t, ?_, by simp [Test.tokens]⟩
                  rw [Test.node, if_neg hdepth, ht]
                · exact .error
            · split
              · exact .error
              · rename_i join hjoin
                obtain rfl := join_of_word hjoin
                refine .next ht (.bind (sound_punct '(' _) ?_)
                rintro _ q used _ rfl
                refine .bind (hchildren negDepth [] q) ?_
                rintro all q used _ ⟨first, more, child, children, rfl, hfirst, hmore, rfl⟩
                refine .bind (sound_punct ')' q) ?_
                rintro _ q used _ rfl
                refine .pure ⟨.group join first more, ?_, by simp [Test.tokens]⟩
                rw [Test.node, hfirst, hmore]
                rfl

/-- **A test** is its node. -/
theorem sound_test (turns : Nat) : SoundTest turns ∧ SoundChildren turns := by
  induction turns with
  | zero => exact ⟨fun _ _ => .error, fun _ _ _ => .error⟩
  | succ turns ih => exact ⟨sound_testStep ih.1 ih.2, sound_children ih.1 ih.2⟩

theorem sound_entry (p : Parser) :
    Accounts parseTestEntry p (fun n used => ∃ t : Test, t.node 0 = some n ∧ used = t.tokens)
      Never := by
  rw [parseTestEntry]
  refine .peek fun t _ => ?_
  split
  · exact .fuel fun turns => (sound_test turns).1 0 p
  · exact .error

/-! ## Commands -/

theorem sound_args (turns : Nat) : ∀ (annots strs : List Text) (p : Parser),
    Accounts (parseArgs turns annots strs) p
      (fun all used => (∀ v ∈ all.1, ∃ name, v = ':' :: name) → ∃ args : List Arg,
        all = (annots ++ annotsOf args, strs ++ strsOf args) ∧
        used = args.flatMap Arg.tokens ++ [.punct ';']) Never := by
  induction turns with
  | zero => exact fun _ _ _ => .error
  | succ turns ih =>
    intro annots strs p
    rw [parseArgs]
    refine .peek fun t ht => ?_
    split
    · exact .error
    · rename_i t
      split
      · rename_i hannot
        obtain ⟨k, v⟩ := t
        obtain rfl : k = .annot := hannot
        refine .next ht ((ih (annots ++ [v]) strs _).imp ?_)
        rintro all used h hall
        obtain ⟨args, rfl, rfl⟩ := h hall
        obtain ⟨name, rfl⟩ := hall v (by simp)
        exact ⟨.tag name :: args, by simp [annotsOf, strsOf], rfl⟩
      · split
        · refine .bind (sound_strings p) ?_
          rintro items q used _ ⟨list, rfl, rfl⟩
          refine (ih annots (strs ++ list.items) q).imp ?_
          rintro all more h hall
          obtain ⟨args, rfl, rfl⟩ := h hall
          exact ⟨.strings list :: args, by simp [annotsOf, strsOf], by simp [Arg.tokens]⟩
        · split
          · rename_i hsemicolon
            subst hsemicolon
            exact .next ht (.pure fun _ => ⟨[], by simp [annotsOf, strsOf], rfl⟩)
          · exact .error

/-- **A command** is its action. -/
theorem sound_command (p : Parser) :
    Accounts parseCommand p (fun a used => ∃ c : Command, c.action = some a ∧ used = c.tokens)
      Never := by
  rw [parseCommand]
  refine .peek fun t ht => ?_
  split
  · rename_i name
    refine .next ht (.fuel fun turns => .bind (sound_args turns [] [] _) ?_)
    rintro ⟨annots, strs⟩ q used _ hargs
    dsimp only
    split
    · exact .error
    · rename_i hcopy
      split
      · exact .error
      · rename_i action haction
        refine .pure ?_
        have hall : ∀ v ∈ annots, v = ":copy".toList := by
          intro v hv
          by_contra hne
          exact hcopy (List.any_eq_true.mpr ⟨v, hv, by simpa using hne⟩)
        obtain ⟨args, heq, rfl⟩ := hargs fun v hv => ⟨"copy".toList, hall v hv⟩
        obtain ⟨rfl, rfl⟩ := Prod.mk.inj heq
        refine ⟨⟨name, args⟩, ?_, by rw [List.append_nil]; rfl⟩
        rw [List.nil_append] at hcopy haction
        rw [Command.action, if_neg hcopy]
        exact haction
  · exact .next_error

/-- The commands of a block become the actions. -/
def Acts (block : List Command) (actions : List SieveAction) : Prop :=
  List.Forall₂ (fun c a => Command.action c = some a) block actions

theorem sound_blockLoop (turns : Nat) : ∀ (before : List SieveAction) (p : Parser),
    Accounts (parseBlockLoop turns before) p
      (fun all used => all.2 = false → ∃ block actions, all.1 = before ++ actions ∧
        Acts block actions ∧ used = blockTokens block ++ [.punct '}'])
      (fun used => ∃ block actions, Acts block actions ∧ used = blockTokens block) := by
  induction turns with
  | zero => exact fun _ _ => .error
  | succ turns ih =>
    intro before p
    rw [parseBlockLoop]
    refine .hasError fun herror => ?_
    refine .peek fun t ht => ?_
    split
    · exact .null (Parser.code_of_end ht) ⟨[], [], .nil, rfl⟩
    · rename_i t
      split
      · rename_i hclose
        subst hclose
        exact .next ht (.pure fun _ => ⟨[], [], (List.append_nil before).symm, .nil, rfl⟩)
      · split
        · exact .error
        · split
          · exact .pure fun hnested => absurd hnested (by simp)
          · refine .bind (sound_command p) ?_
            rintro a q used _ ⟨c, ha, rfl⟩
            have hrest := ih (before ++ [a]) q
            refine (hrest.imp ?_).impNull ?_
            · rintro all more h hnested
              obtain ⟨block, actions, hall, hacts, rfl⟩ := h hnested
              exact ⟨c :: block, a :: actions, by simp [hall], .cons ha hacts,
                by simp [blockTokens]⟩
            · rintro more ⟨block, actions, hacts, rfl⟩
              exact ⟨c :: block, a :: actions, .cons ha hacts, rfl⟩

/-- **A block** is its actions. It may be left open at the end of the script. -/
theorem sound_block (p : Parser) :
    Accounts parseBlock p
      (fun all used => all.2 = false → ∃ block, Acts block all.1 ∧
        used = .punct '{' :: (blockTokens block ++ [.punct '}']))
      (fun used => ∃ block actions, Acts block actions ∧ used = .punct '{' :: blockTokens block) := by
  rw [parseBlock]
  refine .bind (sound_punct '{' p) ?_
  rintro _ q used _ rfl
  refine .fuel fun turns => ((sound_blockLoop turns [] q).imp ?_).impNull ?_
  · rintro all more h hnested
    obtain ⟨block, actions, hall, hacts, rfl⟩ := h hnested
    rw [List.nil_append] at hall
    exact ⟨block, hall ▸ hacts, rfl⟩
  · rintro more ⟨block, actions, hacts, rfl⟩
    exact ⟨block, actions, hacts, rfl⟩

/-! ## Scripts -/

/-- **The rules that a script gives**: one for each command outside of tests, and one for
each test with its block. -/
inductive Gives : List Statement → List SieveRule → Prop
  | nil : Gives [] []
  | require {list : StrList} {semicolon : Bool} {script : List Statement} {rules : List SieveRule}
      (rest : Gives script rules) : Gives (.require list semicolon :: script) rules
  | command {c : Command} {a : SieveAction} {script : List Statement} {rules : List SieveRule}
      (act : c.action = some a) (rest : Gives script rules) :
      Gives (.command c :: script) (unconditional a :: rules)
  | ifThen {test : Test} {node : TestNode} {flat : Join × List SieveCondition}
      {block : List Command} {actions : List SieveAction} {name : Text} {script : List Statement}
      {rules : List SieveRule} (read : test.node 0 = some node)
      (flatten : flattenTest node = some flat) (acts : Acts block actions)
      (rest : Gives script rules) :
      Gives (.ifThen test block :: script) (⟨name, true, flat.1, flat.2, actions⟩ :: rules)

/-- A test with a block that the script ends in. -/
structure Unclosed where
  /-- the test after `if` -/
  test : Test
  /-- the commands that come before the end -/
  block : List Command

/-- The tokens. -/
def Unclosed.tokens (u : Unclosed) : List Tok :=
  .word "if".toList :: (u.test.tokens ++ .punct '{' :: blockTokens u.block)

/-- The parser has read it. -/
def Unclosed.Read (u : Unclosed) : Prop :=
  ∃ node actions, u.test.node 0 = some node ∧ Acts u.block actions

/-- The tokens of the block that is left open, if there is one. -/
def endTokens : Option Unclosed → List Tok
  | none => []
  | some u => u.tokens

/-- What the loop of `parse` made of the tokens from `p` on. -/
def Accepts (p : Parser) (before : List SieveRule) (res : List SieveRule × Parser) : Prop :=
  res.2.error = false → ∃ script unclosed rules,
    p.code = scriptTokens script ++ endTokens unclosed ∧ Gives script rules ∧
      (∀ u ∈ unclosed, u.Read) ∧ res.1 = before ++ rules

theorem accepts_end {p : Parser} {before : List SieveRule} {q : Parser} (h : p.code = []) :
    Accepts p before (before, q) :=
  fun _ => ⟨[], none, [], h, .nil, by simp, (List.append_nil before).symm⟩

theorem accepts_error {p : Parser} {before : List SieveRule} {res : List SieveRule × Parser}
    (h : res.2.error = true) : Accepts p before res := fun hok => by
  rw [h] at hok
  cases hok

theorem accepts_unclosed {p : Parser} {before : List SieveRule} {q : Parser} {u : Unclosed}
    (hcode : p.code = u.tokens) (hu : u.Read) : Accepts p before (before, q) :=
  fun _ => ⟨[], some u, [], hcode, .nil, by simpa using hu, (List.append_nil before).symm⟩

/-- A statement before what is accepted already. -/
theorem accepts_cons {p q : Parser} {before new : List SieveRule} {s : Statement}
    {res : List SieveRule × Parser} (hcode : p.code = s.tokens ++ q.code)
    (hgives : ∀ {script rules}, Gives script rules → Gives (s :: script) (new ++ rules))
    (h : Accepts q (before ++ new) res) : Accepts p before res := by
  intro hok
  obtain ⟨script, unclosed, rules, hrest, hscript, hread, hrules⟩ := h hok
  refine ⟨s :: script, unclosed, new ++ rules, ?_, hgives hscript, hread, ?_⟩
  · rw [hcode, hrest, scriptTokens_cons, List.append_assoc]
  · rw [hrules, List.append_assoc]

theorem accepts_require {p q : Parser} {before : List SieveRule} {list : StrList}
    {res : List SieveRule × Parser} (hcode : p.code = .word "require".toList :: (list.tokens ++ q.code))
    (h : Accepts (if isPunct q.peek ';' then q.next else q) before res) : Accepts p before res := by
  rw [← List.append_nil before] at h
  cases hsemicolon : isPunct q.peek ';' with
  | true =>
    rw [hsemicolon, if_pos rfl] at h
    have hq := Parser.code_of_peek (eq_punct hsemicolon)
    refine accepts_cons (s := .require list true) ?_ ?_ h
    · rw [hcode, hq]
      simp [Statement.tokens]
    · exact fun hrest => .require hrest
  | false =>
    rw [hsemicolon, if_neg Bool.false_ne_true] at h
    refine accepts_cons (s := .require list false) ?_ ?_ h
    · rw [hcode]
      simp [Statement.tokens]
    · exact fun hrest => .require hrest

theorem loop_accepts (turns : Nat) : ∀ (before : List SieveRule) (lastComment : Text) (p : Parser),
    Accepts p before (parseLoop turns before lastComment p) := by
  induction turns with
  | zero => exact fun _ _ _ => accepts_error rfl
  | succ turns ih =>
    intro before lastComment p
    rw [parseLoop]
    split
    · rename_i herror
      exact accepts_error herror
    · split
      · rename_i rawAt rest t htoks hpeek
        split
        · rename_i hcomment
          have hcode : p.code = Parser.code { p with toks := rest } := by
            rw [Parser.code, htoks, codeOf, List.filter_cons_of_neg (by simp [hcomment])]
            rfl
          rw [Accepts, hcode]
          exact ih _ _ _
        · have hcode := Parser.code_of_peek hpeek
          split
          · rename_i hrequire
            subst hrequire
            have hstrings := sound_strings p.next
            split
            · rename_i q hrun
              obtain herror | ⟨-, hnever⟩ := hstrings.none q hrun
              · exact accepts_error herror
              · exact hnever.elim
            · rename_i items q hrun
              obtain ⟨_, hlist, list, rfl, rfl⟩ := hstrings.some items q hrun
              exact accepts_require (by rw [hcode, hlist]) (ih before lastComment _)
          · split
            · rename_i hif
              subst hif
              have hentry := sound_entry p.next
              split
              · rename_i q hrun
                obtain herror | ⟨-, hnever⟩ := hentry.none q hrun
                · exact accepts_error herror
                · exact hnever.elim
              · rename_i node q hrun
                obtain ⟨_, htest, test, hnode, rfl⟩ := hentry.some node q hrun
                have hblock := sound_block q
                split
                · rename_i q' hrunBlock
                  obtain herror | ⟨-, block, actions, hacts, hopen⟩ := hblock.none q' hrunBlock
                  · exact accepts_error herror
                  · exact accepts_unclosed (u := ⟨test, block⟩) (by rw [hcode, htest, hopen]; rfl)
                      ⟨node, actions, hnode, hacts⟩
                · rename_i actions nested q' hrunBlock
                  obtain ⟨_, hcodeBlock, hclosed⟩ := hblock.some (actions, nested) q' hrunBlock
                  split
                  · exact accepts_error rfl
                  · rename_i hafter
                    have hnested : nested = false := by
                      simpa using fun hnested => hafter (.inr (.inr hnested))
                    obtain ⟨block, hacts, rfl⟩ := hclosed hnested
                    split
                    · exact accepts_error rfl
                    · rename_i join conds hflat
                      refine accepts_cons (s := .ifThen test block) ?_
                        (fun hrest => .ifThen hnode hflat hacts hrest) (ih _ [] q')
                      rw [hcode, htest, hcodeBlock]
                      simp [Statement.tokens]
            · split
              · have hcommand := sound_command p
                split
                · rename_i q hrun
                  obtain herror | ⟨-, hnever⟩ := hcommand.none q hrun
                  · exact accepts_error herror
                  · exact hnever.elim
                · rename_i a q hrun
                  obtain ⟨_, htokens, c, ha, rfl⟩ := hcommand.some a q hrun
                  exact accepts_cons (s := .command c) htokens (fun hrest => .command ha hrest)
                    (ih _ lastComment q)
              · exact accepts_error rfl
      · rename_i hend
        refine accepts_end ?_
        cases hpeek : p.peek with
        | none => exact Parser.code_of_end hpeek
        | some t =>
          cases htoks : p.toks with
          | nil => rw [Parser.code, htoks]; rfl
          | cons rawAt rest => exact (hend rawAt rest t htoks hpeek).elim

/-- **What is accepted**: the tokens of the script are those of statements that give the
rules, and of a block that is left open at the end, if there is one. -/
theorem parse_accepts {toks : List Tok} {rules : List SieveRule} (h : parse toks = some rules) :
    ∃ script unclosed, codeOf toks = scriptTokens script ++ endTokens unclosed ∧
      Gives script rules ∧ ∀ u ∈ unclosed, u.Read := by
  rw [parse] at h
  split at h
  · cases h
  · rename_i herror
    obtain ⟨script, unclosed, new, hcode, hgives, hread, hrules⟩ :=
      loop_accepts _ [] [] ⟨toks, false⟩ (Bool.eq_false_iff.mpr herror)
    obtain rfl := Option.some.inj h
    rw [List.nil_append] at hrules
    exact ⟨script, unclosed, hcode, hrules ▸ hgives, hread⟩

/-- What `sieveToRules` gives is what `parse` gives. -/
theorem parse_of_accepted {sieve : Text} {rules : List SieveRule}
    (h : sieveToRules sieve = some rules) :
    ∃ toks, tokenize sieve = some toks ∧ parse toks = some rules := by
  rw [sieveToRules] at h
  split at h
  · cases h
  rename_i toks htoks
  split at h
  · cases h
  split at h
  · cases h
  rename_i parsed hparsed
  split at h
  · cases h
  · obtain rfl := Option.some.inj h
    exact ⟨toks, htoks, hparsed⟩

end E2Mail.Sieve
