import E2Mail.Lib.DistinguishedName
import E2Mail.Backend.World

/-!
# The distinguished name of a user

`UserDN` puts the address, or its local part, in the place of the template's placeholder. What it
puts there is escaped character by character: some of the escapes are not those of RFC 4514.

* `escapePos` — the escape of one character.
* `Template` — a template whose placeholder is the value of one attribute.
* `Template.reads_userDN_iff` — which addresses are read back from the name.
-/

namespace E2Mail.Backend

open Lib.DistinguishedName

/-! ## The escapes -/

/-- The characters that `escapeDNValue` puts a backslash before. -/
def slashed : List Char := ",+\\-\"<>;=\\*~()#&|/?".toList

/-- Those that RFC 4514 does not put one before. -/
def foreign : List Char := "-*~()&|/?".toList

/-- The escape of a character, by its position among `n`. -/
def escapePos (n : Nat) (p : Char × Nat) : List Char :=
  if p.1 ∈ slashed then ['\\', p.1]
  else if p.1 = ' ' ∧ (p.2 = 0 ∨ p.2 + 1 = n) then ['\\', '2', '0']
  else if p.1 = '\t' ∧ (p.2 = 0 ∨ p.2 + 1 = n) then ['\\', '0', '9']
  else [p.1]

/-- What the escapes of RFC 4514 bring back: other characters are escaped in a way it does not know,
and NUL not at all. -/
def Returns (c : Char) : Prop := c ≠ Char.ofNat 0 ∧ c ∉ foreign

section Escape

variable {n i : Nat} {c : Char} {s t t' : List Char} {o : List UInt8}

theorem escapeDNValue_eq (s : String) :
    (escapeDNValue s).toList = s.toList.zipIdx.flatMap (escapePos s.toList.length) :=
  String.toList_ofList

/-- The four ways a character is written. -/
theorem escapePos_cases (n i : Nat) (c : Char) :
    (c ∈ slashed ∧ escapePos n (c, i) = ['\\', c]) ∨
    (c = ' ' ∧ escapePos n (c, i) = ['\\', '2', '0']) ∨
    (c = '\t' ∧ escapePos n (c, i) = ['\\', '0', '9']) ∨
    (c ∉ slashed ∧ (c = ' ' → i ≠ 0 ∧ i + 1 ≠ n) ∧ escapePos n (c, i) = [c]) := by
  unfold escapePos
  by_cases hspecial : c ∈ slashed
  · rw [if_pos hspecial]
    exact .inl ⟨hspecial, rfl⟩
  rw [if_neg hspecial]
  by_cases hspace : c = ' ' ∧ (i = 0 ∨ i + 1 = n)
  · rw [if_pos hspace]
    exact .inr (.inl ⟨hspace.1, rfl⟩)
  rw [if_neg hspace]
  by_cases htab : c = '\t' ∧ (i = 0 ∨ i + 1 = n)
  · rw [if_pos htab]
    exact .inr (.inr (.inl ⟨htab.1, rfl⟩))
  rw [if_neg htab]
  refine .inr (.inr (.inr ⟨hspecial, fun hc => ?_, rfl⟩))
  exact not_or.mp fun hend => hspace ⟨hc, hend⟩

theorem returns_of_special (h : c ∈ special) : Returns c := by
  have hall : ∀ d ∈ special, d ≠ Char.ofNat 0 ∧ d ∉ foreign := forall_mem_of_all rfl
  exact hall c h

theorem returns_backslash : Returns '\\' := by
  rw [Returns]
  decide

theorem returns_space : Returns ' ' := by
  rw [Returns]
  decide

theorem returns_tab : Returns '\t' := by
  rw [Returns]
  decide

/-- The escapes that come back are those of the grammar. -/
theorem special_of_returns (h : c ∈ slashed) (hc : Returns c) :
    c = '\\' ∨ c ∈ special := by
  have hall : ∀ d ∈ slashed,
      d = '\\' ∨ d ∈ special ∨ d ∈ foreign := forall_mem_of_all rfl
  rcases hall c h with h | h | h
  · exact .inl h
  · exact .inr h
  · exact absurd h hc.2

/-- A character that stands for itself, where that is allowed. -/
theorem stringChar_of_plain (h : c ∉ slashed) (hc : Returns c) :
    StringChar c ∧ c ≠ '#' := by
  have hall : ∀ d ∈ '\\' :: '#' :: escaped, d ∈ slashed := forall_mem_of_all rfl
  refine ⟨⟨hc.1, ?_, fun hescaped => ?_⟩, ?_⟩
  · rintro rfl
    exact h (hall _ List.mem_cons_self)
  · exact h (hall c (List.mem_cons_of_mem _ (List.mem_cons_of_mem _ hescaped)))
  · rintro rfl
    exact h (hall _ (List.mem_cons_of_mem _ List.mem_cons_self))

/-- **One escape** is read as its character, and as one that may stand at either end if it does. -/
theorem escapePos_piece {ok : Char → Prop} (hc : Returns c)
    (hok : StringChar c → c ≠ '#' → (c = ' ' → i ≠ 0 ∧ i + 1 ≠ n) → ok c) :
    Piece ok (escapePos n (c, i)) (octets [c]) := by
  rcases escapePos_cases n i c with ⟨hmem, heq⟩ | ⟨rfl, heq⟩ | ⟨rfl, heq⟩ | ⟨hmem, hends, heq⟩ <;> rw [heq]
  · rcases special_of_returns hmem hc with rfl | hspecial
    · exact .pair .esc
    · exact .pair (.special hspecial)
  · exact .pair (.hex rfl rfl)
  · exact .pair (.hex rfl rfl)
  · obtain ⟨hchar, hsharp⟩ := stringChar_of_plain hmem hc
    exact .char (hok hchar hsharp hends)

/-- What is put in the name has no separator that counts. -/
theorem escapePos_solid {sep : Char} (h : IsSep sep) : Solid sep (escapePos n (c, i)) := by
  have hmem : ∀ d ∈ [',', '+', '\\'], d ∈ slashed := forall_mem_of_all rfl
  rcases escapePos_cases n i c with ⟨-, heq⟩ | ⟨-, heq⟩ | ⟨-, heq⟩ | ⟨hplain, -, heq⟩ <;> rw [heq]
  · exact .pair _ .nil
  · exact .pair _ (.char (by decide) (by rcases h with rfl | rfl <;> decide) .nil)
  · exact .pair _ (.char (by decide) (by rcases h with rfl | rfl <;> decide) .nil)
  · refine .char ?_ ?_ .nil
    · rintro rfl
      exact hplain (hmem _ (by decide))
    · rintro rfl
      rcases h with rfl | rfl <;> exact hplain (hmem _ (by decide))

theorem solid_flatMap {sep : Char} (h : IsSep sep) (ps : List (Char × Nat)) :
    Solid sep (ps.flatMap (escapePos n)) := by
  induction ps with
  | nil => exact .nil
  | cons p ps ih =>
    rw [List.flatMap_cons]
    exact (escapePos_solid h).append ih

theorem ne_backslash (h : c ∉ slashed) : c ≠ '\\' := by
  rintro rfl
  exact h (by decide)

theorem returns_of_plain (h : c ∉ slashed) (hnul : c ≠ Char.ofNat 0) :
    Returns c := by
  have hall : ∀ d ∈ foreign, d ∈ slashed := forall_mem_of_all rfl
  exact ⟨hnul, fun hmem => h (hall c hmem)⟩

/-- A pair of the grammar that begins with a digit goes on with one. -/
theorem hex_of_pair {high low : Char} (h : Pair s o) (heq : s ++ t = '\\' :: high :: low :: t')
    (hhigh : high.isDigit = true) : t = t' := by
  cases h with
  | esc =>
    obtain ⟨-, heq⟩ := List.cons.inj heq
    obtain ⟨rfl, -⟩ := List.cons.inj heq
    exact absurd hhigh (by decide)
  | special hspecial =>
    obtain ⟨-, heq⟩ := List.cons.inj heq
    obtain ⟨rfl, -⟩ := List.cons.inj heq
    have hall : ∀ d ∈ special, d.isDigit = false := forall_mem_of_all rfl
    exact absurd hhigh (by rw [hall _ hspecial]; exact Bool.false_ne_true)
  | hex _ _ =>
    obtain ⟨-, heq⟩ := List.cons.inj heq
    obtain ⟨-, heq⟩ := List.cons.inj heq
    exact (List.cons.inj heq).2

/-- A pair of the grammar at the start of an escape is the whole of it. -/
theorem returns_of_pair (h : Pair s o) (heq : s ++ t = escapePos n (c, i) ++ t') :
    Returns c ∧ t = t' := by
  rcases escapePos_cases n i c with ⟨hmem, hesc⟩ | ⟨rfl, hesc⟩ | ⟨rfl, hesc⟩ | ⟨hplain, -, hesc⟩ <;>
    rw [hesc] at heq
  · cases h with
    | esc =>
      obtain ⟨-, heq⟩ := List.cons.inj heq
      obtain ⟨rfl, ht⟩ := List.cons.inj heq
      exact ⟨returns_backslash, ht⟩
    | special hspecial =>
      obtain ⟨-, heq⟩ := List.cons.inj heq
      obtain ⟨rfl, ht⟩ := List.cons.inj heq
      exact ⟨returns_of_special hspecial, ht⟩
    | hex hh _ =>
      obtain ⟨-, heq⟩ := List.cons.inj heq
      obtain ⟨rfl, -⟩ := List.cons.inj heq
      have hall : ∀ d ∈ slashed, isHex d = false := forall_mem_of_all rfl
      exact absurd hh (by rw [hall _ hmem]; exact Bool.false_ne_true)
  · exact ⟨returns_space, hex_of_pair h heq rfl⟩
  · exact ⟨returns_tab, hex_of_pair h heq rfl⟩
  · cases h <;> exact absurd (List.cons.inj heq).1.symm (ne_backslash hplain)

/-- A character whose escape is read, comes back. -/
theorem returns_of_piece (h : Piece StringChar s o) (heq : s ++ t = escapePos n (c, i) ++ t') :
    Returns c ∧ t = t' := by
  cases h with
  | pair hp => exact returns_of_pair hp heq
  | char hchar =>
    rcases escapePos_cases n i c with ⟨-, hesc⟩ | ⟨-, hesc⟩ | ⟨-, hesc⟩ | ⟨hplain, -, hesc⟩ <;>
      rw [hesc] at heq
    · exact absurd (List.cons.inj heq).1 hchar.ne_esc
    · exact absurd (List.cons.inj heq).1 hchar.ne_esc
    · exact absurd (List.cons.inj heq).1 hchar.ne_esc
    · obtain ⟨rfl, ht⟩ := List.cons.inj heq
      exact ⟨returns_of_plain hplain hchar.ne_nul, ht⟩

theorem escapePos_ne_nil : escapePos n (c, i) ≠ [] := by
  rcases escapePos_cases n i c with ⟨-, hesc⟩ | ⟨-, hesc⟩ | ⟨-, hesc⟩ | ⟨-, -, hesc⟩ <;> rw [hesc] <;>
    exact List.cons_ne_nil _ _

/-- By induction on the characters: if the escapes are read, all come back. -/
theorem returns_of_pieces {v : List Char} (h : Pieces StringChar ((v.zipIdx i).flatMap (escapePos n)) o) :
    ∀ c ∈ v, Returns c := by
  induction v generalizing i o with
  | nil => exact fun _ hmem => absurd hmem List.not_mem_nil
  | cons c v ih =>
    rw [List.zipIdx_cons, List.flatMap_cons] at h
    generalize hs : escapePos n (c, i) ++ (v.zipIdx (i + 1)).flatMap (escapePos n) = s at h
    cases h with
    | nil => exact absurd (List.append_eq_nil_iff.mp hs).1 escapePos_ne_nil
    | cons hp ht =>
      obtain ⟨hc, rfl⟩ := returns_of_piece hp hs.symm
      exact List.forall_mem_cons.mpr ⟨hc, ih ht⟩

/-- Characters that come back, inside a value. -/
theorem pieces_of_returns {v : List Char} (h : ∀ c ∈ v, Returns c) :
    Pieces StringChar ((v.zipIdx i).flatMap (escapePos n)) (octets v) := by
  induction v generalizing i with
  | nil => exact .nil
  | cons c v ih =>
    obtain ⟨hc, hv⟩ := List.forall_mem_cons.mp h
    have hcons : octets (c :: v) = octets [c] ++ octets v := by
      rw [octets, octets, octets, List.flatMap_cons, List.flatMap_singleton]
    rw [List.zipIdx_cons, List.flatMap_cons, hcons]
    exact .cons (escapePos_piece hc fun hchar _ _ => hchar) (ih hv)

end Escape

theorem octets_append (s t : List Char) : octets (s ++ t) = octets s ++ octets t := by
  rw [octets, octets, octets, List.flatMap_append]

/-- The first and the last character have rules of their own. -/
theorem stringValue_of_returns {v : List Char} (h : ∀ c ∈ v, Returns c) :
    StringValue (v.zipIdx.flatMap (escapePos v.length)) (octets v) := by
  rcases v with _ | ⟨first, rest⟩
  · exact .empty
  obtain ⟨hfirst, hrest⟩ := List.forall_mem_cons.mp h
  have hlead : ∀ n, Piece LeadChar (escapePos n (first, 0)) (octets [first]) := fun n =>
    escapePos_piece hfirst fun hchar hsharp hends => ⟨⟨hchar, fun heq => (hends heq).1 rfl⟩, hsharp⟩
  rcases List.eq_nil_or_concat rest with rfl | ⟨mid, last, rfl⟩
  · rw [List.zipIdx_singleton, List.flatMap_singleton]
    exact .one (hlead _)
  rw [List.concat_eq_append] at hrest ⊢
  obtain ⟨hmid, hlast⟩ := List.forall_mem_append.mp hrest
  set n := (first :: (mid ++ [last])).length with hn
  have hlen : mid.length + 1 + 1 = n := by
    rw [hn, List.length_cons, List.length_append, List.length_singleton]
  have htrail : Piece TrailChar (escapePos n (last, 1 + mid.length)) (octets [last]) :=
    escapePos_piece (hlast last List.mem_cons_self) fun hchar _ hends =>
      ⟨hchar, fun heq => (hends heq).2 (by omega)⟩
  rw [List.zipIdx_cons, List.flatMap_cons, List.zipIdx_append, List.flatMap_append,
    List.zipIdx_singleton, List.flatMap_singleton, ← List.singleton_append, octets_append,
    octets_append, Nat.zero_add]
  exact .more (hlead n) (pieces_of_returns hmid) htrail

/-- **What is read of an escaped value**: the value, if every character of it comes back. -/
theorem stringValue_iff (s : String) :
    StringValue (escapeDNValue s).toList (octets s.toList) ↔ ∀ c ∈ s.toList, Returns c := by
  rw [escapeDNValue_eq]
  exact ⟨fun h => returns_of_pieces h.pieces, stringValue_of_returns⟩

/-! ## The template -/

/-- A text that `UserDN` leaves as it is. -/
def NoPlaceholder (s : List Char) : Prop := ¬ ['%', 's'] <:+: s ∧ ¬ ['%', 'u'] <:+: s

/-- What a template may have in the place of a value. -/
inductive Placeholder where
  /-- `%s` -/
  | email
  /-- `%u` -/
  | localPart

/-- The token. -/
def Placeholder.token : Placeholder → List Char
  | .email => ['%', 's']
  | .localPart => ['%', 'u']

/-- What it stands for: the address, or what comes before its first `@`. -/
def Placeholder.value (email : String) : Placeholder → List Char
  | .email => email.toList
  | .localPart => email.toList.takeWhile (· ≠ '@')

/-- **A template whose placeholder is the value of one attribute.** -/
structure Template extends Hole where
  placeholder : Placeholder
  front_plain : NoPlaceholder toHole.front
  back_plain : NoPlaceholder toHole.back

/-- Its text, as it is configured. -/
def Template.source (T : Template) : List Char := T.text T.placeholder.token

/-- The name that it stands for. -/
def Template.name (T : Template) (email : String) : List (List Atv) :=
  T.fill (.string (octets (T.placeholder.value email)))

section Template

variable {full localPart s t : List Char}

theorem NoPlaceholder.tail {c : Char} (h : NoPlaceholder (c :: s)) : NoPlaceholder s :=
  ⟨fun hs => h.1 (hs.trans (List.suffix_cons c s).isInfix),
    fun hs => h.2 (hs.trans (List.suffix_cons c s).isInfix)⟩

/-- A character that begins no token stays. -/
theorem expandTemplate_cons {c : Char} (hemail : ¬ ['%', 's'] <+: c :: s)
    (hlocal : ¬ ['%', 'u'] <+: c :: s) :
    expandTemplate full localPart (c :: s) = c :: expandTemplate full localPart s := by
  rw [expandTemplate]
  · rintro rest rfl rfl
    exact hemail (List.prefix_append ['%', 's'] rest)
  · rintro rest rfl rfl
    exact hlocal (List.prefix_append ['%', 'u'] rest)

/-- What is before the placeholder stays: it does not end with half a token. -/
theorem expandTemplate_append (h : NoPlaceholder s) (hlast : s.getLast? ≠ some '%') :
    expandTemplate full localPart (s ++ t) = s ++ expandTemplate full localPart t := by
  induction s with
  | nil => rfl
  | cons c s ih =>
    have htoken : ∀ d, ¬ ['%', d] <:+: c :: s → ¬ ['%', d] <+: c :: (s ++ t) := by
      intro d hnot hpre
      obtain ⟨rfl, htail⟩ := List.cons_prefix_cons.mp hpre
      cases s with
      | nil => exact hlast rfl
      | cons e s =>
        obtain ⟨rfl, -⟩ := List.cons_prefix_cons.mp htail
        exact hnot (List.prefix_append ['%', d] s).isInfix
    rw [List.cons_append, expandTemplate_cons (htoken 's' h.1) (htoken 'u' h.2), List.cons_append]
    congr 1
    refine ih h.tail fun hs => hlast ?_
    cases s with
    | nil => cases hs
    | cons e s => rwa [List.getLast?_cons_cons]

theorem expandTemplate_of_noPlaceholder (h : NoPlaceholder s) :
    expandTemplate full localPart s = s := by
  induction s with
  | nil => rfl
  | cons c s ih =>
    rw [expandTemplate_cons (fun hpre => h.1 hpre.isInfix) (fun hpre => h.2 hpre.isInfix), ih h.tail]

end Template

namespace Template

variable {P : Params} (T : Template)

/-- The hole comes right after an `=`. -/
theorem getLast?_front : T.front.getLast? = some '=' := by
  rw [Hole.front, ← List.append_assoc, ← List.append_assoc, List.getLast?_append]
  rfl

/-- **The placeholder is expanded**, and nothing else. -/
theorem expand (full localPart : List Char) :
    expandTemplate full localPart T.source =
      T.text (match T.placeholder with | .email => full | .localPart => localPart) := by
  have hlast : T.front.getLast? ≠ some '%' := by
    rw [T.getLast?_front]
    decide
  rw [source, Hole.text_eq, Hole.text_eq, expandTemplate_append T.front_plain hlast]
  congr 1
  cases T.placeholder with
  | email =>
    show full ++ expandTemplate full localPart T.back = _
    rw [expandTemplate_of_noPlaceholder T.back_plain]
  | localPart =>
    show localPart ++ expandTemplate full localPart T.back = _
    rw [expandTemplate_of_noPlaceholder T.back_plain]

theorem userDN_eq (h : P.dnTemplate.toList = T.source) (email : String) :
    P.userDN email = .ok (String.ofList (T.text
      (escapeDNValue (String.ofList (T.placeholder.value email))).toList)) := by
  have hne : P.dnTemplate ≠ "" := by
    intro hempty
    have hfront : T.front = [] := by
      rw [hempty, source, Hole.text_eq] at h
      exact (List.append_eq_nil_iff.mp h.symm).1
    have hlast : T.front.getLast? = some '=' := T.getLast?_front
    rw [hfront] at hlast
    cases hlast
  rw [Params.userDN, if_neg hne, h]
  show Except.ok (String.ofList (expandTemplate _ _ T.source)) = _
  rw [expand]
  cases T.placeholder with
  | email => rw [Placeholder.value, String.ofList_toList]
  | localPart => rfl

/-- The name has the parts of the template if what is put there is read. -/
theorem isDn_userDN_iff (h : P.dnTemplate.toList = T.source) (email : String) :
    (∃ dn, P.userDN email = .ok dn ∧ IsDn dn.toList (T.name email)) ↔
      ∀ c ∈ T.placeholder.value email, Returns c := by
  set value := String.ofList (T.placeholder.value email) with hvalue
  have hlist : value.toList = T.placeholder.value email := String.toList_ofList
  have hsolid : ∀ {sep : Char}, IsSep sep → Solid sep (escapeDNValue value).toList := by
    intro sep hsep
    rw [escapeDNValue_eq]
    exact solid_flatMap hsep _
  have hdn : IsDn (T.text (escapeDNValue value).toList) (T.name email) ↔
      ∀ c ∈ value.toList, Returns c := by
    rw [name, ← hlist, Hole.isDn_iff T.toHole (hsolid (.inl rfl)) (hsolid (.inr rfl)),
      isValue_string, stringValue_iff]
  rw [← hlist, ← hdn, T.userDN_eq h]
  constructor
  · rintro ⟨dn, heq, hname⟩
    rwa [← Except.ok.inj heq, String.toList_ofList] at hname
  · intro hread
    exact ⟨_, rfl, by rwa [String.toList_ofList]⟩

/-- **Which addresses are read back**: the name has the parts of the template with the address in
its place, and can be read in no other way, if and only if all characters of what is put there come
back. -/
theorem reads_userDN_iff (h : P.dnTemplate.toList = T.source) (email : String) :
    (∃ dn, P.userDN email = .ok dn ∧ ∀ name, IsDn dn.toList name ↔ name = T.name email) ↔
      ∀ c ∈ T.placeholder.value email, Returns c := by
  rw [← T.isDn_userDN_iff h email]
  constructor
  · rintro ⟨dn, hdn, hname⟩
    exact ⟨dn, hdn, (hname (T.name email)).mpr rfl⟩
  · rintro ⟨dn, hdn, hread⟩
    exact ⟨dn, hdn, fun name => ⟨fun hname => hname.unique hread, fun heq => heq ▸ hread⟩⟩

theorem isRdn_sample : IsRdn "o=x".toList [⟨"o".toList, .string (octets "x".toList)⟩] := by
  have hx : StringValue "x".toList (octets "x".toList) := by
    refine .one (.char ⟨⟨⟨?_, ?_, ?_⟩, ?_⟩, ?_⟩) <;> decide
  have htype : IsType "o".toList := .descr rfl fun _ hd => absurd hd List.not_mem_nil
  have hatv : IsAtv "o=x".toList ⟨"o".toList, .string (octets "x".toList)⟩ :=
    ⟨htype, "x".toList, rfl, .string hx⟩
  exact ⟨["o=x".toList], List.cons_ne_nil _ _, rfl, .cons hatv .nil⟩

theorem isType_uid : IsType "uid".toList :=
  .descr rfl (forall_mem_of_all rfl)

/-- The parts of `uid=%s,o=x`. -/
def sampleHole : Hole where
  before := []
  left := []
  type := "uid".toList
  right := []
  after := [("o=x".toList, [⟨"o".toList, .string (octets "x".toList)⟩])]
  before_isRdn := fun _ hp => absurd hp List.not_mem_nil
  left_isAtv := fun _ hp => absurd hp List.not_mem_nil
  type_isType := isType_uid
  right_isAtv := fun _ hp => absurd hp List.not_mem_nil
  after_isRdn := List.forall_mem_singleton.mpr isRdn_sample

theorem noPlaceholder_sample : NoPlaceholder sampleHole.front ∧ NoPlaceholder sampleHole.back := by
  rw [NoPlaceholder, NoPlaceholder]
  decide

/-- `uid=%s,o=x` -/
def sample : Template where
  toHole := sampleHole
  placeholder := .email
  front_plain := noPlaceholder_sample.1
  back_plain := noPlaceholder_sample.2

theorem reads_userDN_sample :
    (∃ dn, { Params.sample with dnTemplate := "uid=%s,o=x" }.userDN " a,b@x.org" = .ok dn ∧
      ∀ name, IsDn dn.toList name ↔ name = sample.name " a,b@x.org") ↔
      ∀ c ∈ " a,b@x.org".toList, Returns c :=
  reads_userDN_iff sample (P := { Params.sample with dnTemplate := "uid=%s,o=x" }) rfl " a,b@x.org"

/-- A hyphen is escaped, and the escape is not one of the grammar. -/
theorem hyphen_not_read :
    ¬ ∃ dn, { Params.sample with dnTemplate := "uid=%s,o=x" }.userDN "john-doe@x.org" = .ok dn ∧
      IsDn dn.toList (sample.name "john-doe@x.org") := by
  intro h
  have hall : ∀ c ∈ "john-doe@x.org".toList, Returns c :=
    (sample.isDn_userDN_iff (P := { Params.sample with dnTemplate := "uid=%s,o=x" }) rfl _).mp h
  exact (hall '-' (by decide)).2 (by decide)

end Template

end E2Mail.Backend
