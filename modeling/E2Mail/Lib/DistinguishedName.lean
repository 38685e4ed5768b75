import Mathlib.Data.List.Forall2
import E2Mail.Lib.Separator

/-!
# Distinguished names as text

The grammar of RFC 4514, with the octets that the values stand for. A distinguished name is read in
one way only: the separators that count are those that are not escaped.

* `StringValue`, `IsValue`, `IsAtv`, `IsRdn`, `IsDn` — the grammar.
* `Solid` — a text without a separator that counts.
* `IsDn.unique` — it is read in one way.
* `Hole` — a distinguished name with a place for one value.
* `Hole.isDn_iff` — filled with a solid text, it reads as it should if and only if the text does.
-/

namespace E2Mail.Lib.DistinguishedName

/-! ## Values -/

/-- `escaped` -/
def escaped : List Char := ['"', '+', ',', ';', '<', '>']

/-- `special` -/
def special : List Char := escaped ++ [' ', '#', '=']

/-- `HEX` -/
def isHex (c : Char) : Bool :=
  ('0' ≤ c && c ≤ '9') || ('a' ≤ c && c ≤ 'f') || ('A' ≤ c && c ≤ 'F')

/-- What a `HEX` stands for. -/
def hexValue (c : Char) : Nat :=
  if c ≤ '9' then c.toNat - 48 else if c ≤ 'F' then c.toNat - 55 else c.toNat - 87

/-- The octet of a `hexpair`. -/
def hexOctet (high low : Char) : UInt8 := UInt8.ofNat (16 * hexValue high + hexValue low)

/-- The octets of a text, in UTF-8. -/
def octets (s : List Char) : List UInt8 := s.flatMap String.utf8EncodeChar

/-- `stringchar` -/
structure StringChar (c : Char) : Prop where
  ne_nul : c ≠ Char.ofNat 0
  ne_esc : c ≠ '\\'
  unescaped : c ∉ escaped

/-- `trailchar` -/
structure TrailChar (c : Char) : Prop extends StringChar c where
  ne_space : c ≠ ' '

/-- `leadchar` -/
structure LeadChar (c : Char) : Prop extends TrailChar c where
  ne_sharp : c ≠ '#'

/-- `pair` -/
inductive Pair : List Char → List UInt8 → Prop where
  | esc : Pair ['\\', '\\'] (octets ['\\'])
  | special {c : Char} (h : c ∈ special) : Pair ['\\', c] (octets [c])
  | hex {high low : Char} (hh : isHex high = true) (hl : isHex low = true) :
      Pair ['\\', high, low] [hexOctet high low]

/-- A character of a kind, or a `pair`. -/
inductive Piece (ok : Char → Prop) : List Char → List UInt8 → Prop where
  | char {c : Char} (h : ok c) : Piece ok [c] (octets [c])
  | pair {s : List Char} {o : List UInt8} (h : Pair s o) : Piece ok s o

/-- Any number of them. -/
inductive Pieces (ok : Char → Prop) : List Char → List UInt8 → Prop where
  | nil : Pieces ok [] []
  | cons {s t : List Char} {o p : List UInt8} (h : Piece ok s o) (ht : Pieces ok t p) :
      Pieces ok (s ++ t) (o ++ p)

/-- `string` -/
inductive StringValue : List Char → List UInt8 → Prop where
  | empty : StringValue [] []
  | one {s : List Char} {o : List UInt8} (h : Piece LeadChar s o) : StringValue s o
  | more {s m t : List Char} {o p q : List UInt8} (h : Piece LeadChar s o)
      (hm : Pieces StringChar m p) (ht : Piece TrailChar t q) :
      StringValue (s ++ (m ++ t)) (o ++ (p ++ q))

/-- What an attribute value stands for. -/
inductive Value where
  /-- the octets of a text -/
  | string (octets : List UInt8)
  /-- the octets of a BER encoding -/
  | ber (octets : List UInt8)

/-- `attributeValue` -/
inductive IsValue : List Char → Value → Prop where
  | string {s : List Char} {o : List UInt8} (h : StringValue s o) : IsValue s (.string o)
  | hex {pairs : List (Char × Char)} (hne : pairs ≠ [])
      (h : ∀ p ∈ pairs, isHex p.1 = true ∧ isHex p.2 = true) :
      IsValue ('#' :: pairs.flatMap fun p => [p.1, p.2]) (.ber (pairs.map fun p => hexOctet p.1 p.2))

theorem isValue_string {s : List Char} {o : List UInt8} : IsValue s (.string o) ↔ StringValue s o := by
  constructor
  · intro h
    cases h with
    | string h => exact h
  · exact .string

/-! ## Names -/

/-- `keychar` -/
def isKeyChar (c : Char) : Bool := c.isAlphanum || c == '-'

/-- `number` -/
def IsNumber (s : List Char) : Prop :=
  s ≠ [] ∧ (∀ c ∈ s, c.isDigit = true) ∧ (s.head? = some '0' → s = ['0'])

/-- `attributeType`: `descr` or `numericoid` -/
inductive IsType : List Char → Prop where
  | descr {c : Char} {s : List Char} (h : c.isAlpha = true) (hs : ∀ d ∈ s, isKeyChar d = true) :
      IsType (c :: s)
  | numericoid {numbers : List (List Char)} (h : 2 ≤ numbers.length)
      (hs : ∀ s ∈ numbers, IsNumber s) : IsType (['.'].intercalate numbers)

/-- An attribute with its value. -/
structure Atv where
  type : List Char
  value : Value

/-- `attributeTypeAndValue` -/
def IsAtv (s : List Char) (a : Atv) : Prop :=
  IsType a.type ∧ ∃ v, s = a.type ++ '=' :: v ∧ IsValue v a.value

/-- `relativeDistinguishedName` -/
def IsRdn (s : List Char) (rdn : List Atv) : Prop :=
  ∃ texts, texts ≠ [] ∧ s = ['+'].intercalate texts ∧ List.Forall₂ IsAtv texts rdn

/-- `distinguishedName` -/
def IsDn (s : List Char) (dn : List (List Atv)) : Prop :=
  (s = [] ∧ dn = []) ∨
    ∃ texts, texts ≠ [] ∧ s = [','].intercalate texts ∧ List.Forall₂ IsRdn texts dn

/-! ## The pieces of a value -/

theorem Piece.mono {ok ok' : Char → Prop} (hok : ∀ c, ok c → ok' c) {s : List Char} {o : List UInt8}
    (h : Piece ok s o) : Piece ok' s o := by
  cases h with
  | char hc => exact .char (hok _ hc)
  | pair hp => exact .pair hp

theorem Piece.pieces {ok : Char → Prop} {s : List Char} {o : List UInt8} (h : Piece ok s o) :
    Pieces ok s o := by
  rw [← List.append_nil s, ← List.append_nil o]
  exact .cons h .nil

theorem Pieces.append {ok : Char → Prop} {s t : List Char} {o p : List UInt8} (h : Pieces ok s o)
    (ht : Pieces ok t p) : Pieces ok (s ++ t) (o ++ p) := by
  induction h with
  | nil => exact ht
  | cons hp _ ih =>
    rw [List.append_assoc, List.append_assoc]
    exact .cons hp ih

/-- Without the rules for its ends. -/
theorem StringValue.pieces {s : List Char} {o : List UInt8} (h : StringValue s o) :
    Pieces StringChar s o := by
  have hlead : ∀ c, LeadChar c → StringChar c := fun _ hc => hc.toStringChar
  have htrail : ∀ c, TrailChar c → StringChar c := fun _ hc => hc.toStringChar
  cases h with
  | empty => exact .nil
  | one hp => exact (hp.mono hlead).pieces
  | more hp hm ht => exact (hp.mono hlead).pieces.append (hm.append (ht.mono htrail).pieces)

/-- A check of the characters of a list, one by one. -/
theorem forall_mem_of_all {l : List Char} {Q : Char → Prop} [DecidablePred Q]
    (h : (l.all fun c => decide (Q c)) = true) : ∀ c ∈ l, Q c :=
  fun c hc => of_decide_eq_true (List.all_eq_true.mp h c hc)

/-! ## One reading -/

section Unique

variable {s s' t t' : List Char} {o o' : List UInt8}

theorem not_special_of_isHex {c : Char} (hc : isHex c = true) : c ∉ '\\' :: special := by
  have hall : ∀ d ∈ '\\' :: special, isHex d = false := forall_mem_of_all rfl
  intro hmem
  rw [hall c hmem] at hc
  exact Bool.false_ne_true hc

/-- A pair: of a character that has a meaning, or of two digits. -/
theorem pair_cases (h : Pair s o) :
    (∃ c ∈ '\\' :: special, s = ['\\', c] ∧ o = octets [c]) ∨
    ∃ high low, isHex high = true ∧ s = ['\\', high, low] ∧ o = [hexOctet high low] := by
  cases h with
  | esc => exact .inl ⟨_, List.mem_cons_self, rfl, rfl⟩
  | special hc => exact .inl ⟨_, List.mem_cons_of_mem _ hc, rfl, rfl⟩
  | hex hh _ => exact .inr ⟨_, _, hh, rfl, rfl⟩

/-- Two pairs at the start of one text. -/
theorem Pair.unique (h : Pair s o) (h' : Pair s' o') (heq : s ++ t = s' ++ t') : o = o' ∧ t = t' := by
  rcases pair_cases h with ⟨c, hc, rfl, rfl⟩ | ⟨high, low, hh, rfl, rfl⟩ <;>
    rcases pair_cases h' with ⟨c', hc', rfl, rfl⟩ | ⟨high', low', hh', rfl, rfl⟩
  · obtain ⟨rfl, rfl⟩ : c = c' ∧ t = t' := by simpa using heq
    exact ⟨rfl, rfl⟩
  · obtain ⟨rfl, -⟩ : c = high' ∧ t = low' :: t' := by simpa using heq
    exact absurd hc (not_special_of_isHex hh')
  · obtain ⟨rfl, -⟩ : high = c' ∧ low :: t = t' := by simpa using heq
    exact absurd hc' (not_special_of_isHex hh)
  · obtain ⟨rfl, rfl, rfl⟩ : high = high' ∧ low = low' ∧ t = t' := by simpa using heq
    exact ⟨rfl, rfl⟩

theorem Pair.head (h : Pair s o) : ∃ r, s = '\\' :: r := by
  cases h <;> exact ⟨_, rfl⟩

theorem Piece.unique (h : Piece StringChar s o) (h' : Piece StringChar s' o')
    (heq : s ++ t = s' ++ t') : o = o' ∧ t = t' := by
  cases h with
  | char hc =>
    cases h' with
    | char hc' =>
      obtain ⟨rfl, rfl⟩ := List.cons.inj heq
      exact ⟨rfl, rfl⟩
    | pair hp' =>
      obtain ⟨r, rfl⟩ := hp'.head
      exact absurd (List.cons.inj heq).1 hc.ne_esc
  | pair hp =>
    cases h' with
    | char hc' =>
      obtain ⟨r, rfl⟩ := hp.head
      exact absurd (List.cons.inj heq).1.symm hc'.ne_esc
    | pair hp' => exact hp.unique hp' heq

theorem Piece.ne_nil {ok : Char → Prop} (h : Piece ok s o) : s ≠ [] := by
  cases h with
  | char _ => exact List.cons_ne_nil _ _
  | pair hp =>
    obtain ⟨r, rfl⟩ := hp.head
    exact List.cons_ne_nil _ _

theorem Pieces.unique (h : Pieces StringChar s o) (h' : Pieces StringChar s o') : o = o' := by
  induction h generalizing o' with
  | nil =>
    generalize hs : ([] : List Char) = s at h'
    cases h' with
    | nil => rfl
    | cons hp _ => exact absurd (List.append_eq_nil_iff.mp hs.symm).1 hp.ne_nil
  | @cons r t _ _ hp _ ih =>
    generalize hs : r ++ t = s at h'
    cases h' with
    | nil => exact absurd (List.append_eq_nil_iff.mp hs).1 hp.ne_nil
    | cons hp' ht' =>
      obtain ⟨rfl, rfl⟩ := hp.unique hp' hs
      rw [ih ht']

/-- What is not a string begins with a sign of its own. -/
theorem StringValue.ne_sharp (h : StringValue ('#' :: s) o) : False := by
  have hlead : ∀ {r t p}, Piece LeadChar r p → r ++ t = '#' :: s → False := by
    intro r t p hp heq
    cases hp with
    | char hc => exact hc.ne_sharp (List.cons.inj heq).1
    | pair hp =>
      obtain ⟨r, rfl⟩ := hp.head
      exact absurd (List.cons.inj heq).1 (by decide)
  generalize hs : '#' :: s = r at h
  cases h with
  | empty => cases hs
  | one hp => exact hlead hp (t := []) (by rw [List.append_nil, hs])
  | more hp _ _ => exact hlead hp hs.symm

theorem pairs_unique {pairs pairs' : List (Char × Char)}
    (h : (pairs.flatMap fun p => [p.1, p.2]) = pairs'.flatMap fun p => [p.1, p.2]) : pairs = pairs' := by
  induction pairs generalizing pairs' with
  | nil =>
    cases pairs' with
    | nil => rfl
    | cons p' pairs' => cases h
  | cons p pairs ih =>
    cases pairs' with
    | nil => cases h
    | cons p' pairs' =>
      obtain ⟨hfst, h⟩ := List.cons.inj h
      obtain ⟨hsnd, h⟩ := List.cons.inj h
      rw [Prod.ext hfst hsnd, ih h]

theorem IsValue.unique {value value' : Value} (h : IsValue s value) (h' : IsValue s value') :
    value = value' := by
  cases h with
  | string hv =>
    generalize hs : s = r at h'
    cases h' with
    | string hv' => rw [hv.pieces.unique (hs ▸ hv'.pieces)]
    | hex _ _ => exact (StringValue.ne_sharp (hs ▸ hv)).elim
  | hex _ _ =>
    generalize hs : '#' :: _ = r at h'
    cases h' with
    | string hv' => exact (StringValue.ne_sharp (hs ▸ hv')).elim
    | hex _ _ => rw [pairs_unique (List.cons.inj hs).2]

end Unique

/-! ## Separators that count -/

/-- The separator is in the text only where it is escaped. -/
inductive Solid (sep : Char) : List Char → Prop where
  | nil : Solid sep []
  | char {c : Char} {s : List Char} (hesc : c ≠ '\\') (hsep : c ≠ sep) (h : Solid sep s) :
      Solid sep (c :: s)
  | pair {s : List Char} (c : Char) (h : Solid sep s) : Solid sep ('\\' :: c :: s)

section Solid

variable {sep c : Char} {s s' t t' : List Char}

theorem Solid.append (hs : Solid sep s) (ht : Solid sep t) : Solid sep (s ++ t) := by
  induction hs with
  | nil => exact ht
  | char hesc hsep _ ih => exact .char hesc hsep ih
  | pair c _ ih => exact .pair c ih

theorem solid_of_forall (h : ∀ c ∈ s, c ≠ '\\' ∧ c ≠ sep) : Solid sep s := by
  induction s with
  | nil => exact .nil
  | cons c s ih =>
    obtain ⟨hc, hs⟩ := List.forall_mem_cons.mp h
    exact .char hc.1 hc.2 (ih hs)

theorem solid_cons (hesc : c ≠ '\\') : Solid sep (c :: s) ↔ c ≠ sep ∧ Solid sep s := by
  constructor
  · intro h
    cases h with
    | char _ hsep h => exact ⟨hsep, h⟩
    | pair _ _ => exact absurd rfl hesc
  · rintro ⟨hsep, h⟩
    exact .char hesc hsep h

theorem solid_pair : Solid sep ('\\' :: c :: s) ↔ Solid sep s := by
  constructor
  · intro h
    cases h with
    | char hesc _ _ => exact absurd rfl hesc
    | pair _ h => exact h
  · exact .pair c

/-- A text up to a separator that counts is not solid. -/
theorem Solid.not_append (hne : sep ≠ '\\') (hs : Solid sep s) : ¬ Solid sep (s ++ sep :: t) := by
  induction hs with
  | nil =>
    rw [List.nil_append, solid_cons hne]
    exact fun h => h.1 rfl
  | char hesc _ _ ih =>
    rw [List.cons_append, solid_cons hesc]
    exact fun h => ih h.2
  | pair c _ ih =>
    rw [List.cons_append, List.cons_append, solid_pair]
    exact ih

/-- The first separator that counts. -/
theorem Solid.cut (hne : sep ≠ '\\') (hs : Solid sep s) (hs' : Solid sep s')
    (h : s ++ sep :: t = s' ++ sep :: t') : s = s' ∧ t = t' := by
  induction hs generalizing s' with
  | nil =>
    cases hs' with
    | nil => exact ⟨rfl, List.tail_eq_of_cons_eq h⟩
    | char _ hsep _ => exact absurd (List.head_eq_of_cons_eq h).symm hsep
    | pair c _ => exact absurd (List.head_eq_of_cons_eq h) hne
  | char hesc hsep _ ih =>
    cases hs' with
    | nil => exact absurd (List.head_eq_of_cons_eq h) hsep
    | char _ _ hs' =>
      obtain ⟨heq, ht⟩ := ih hs' (List.tail_eq_of_cons_eq h)
      exact ⟨by rw [List.head_eq_of_cons_eq h, heq], ht⟩
    | pair c _ => exact absurd (List.head_eq_of_cons_eq h) hesc
  | pair c _ ih =>
    cases hs' with
    | nil => exact absurd (List.head_eq_of_cons_eq h).symm hne
    | char hesc _ _ => exact absurd (List.head_eq_of_cons_eq h).symm hesc
    | pair d hs' =>
      have h := List.tail_eq_of_cons_eq h
      obtain ⟨heq, ht⟩ := ih hs' (List.tail_eq_of_cons_eq h)
      exact ⟨by rw [List.head_eq_of_cons_eq h, heq], ht⟩

/-- **Solid texts are joined in one way** only. -/
theorem intercalate_inj (hne : sep ≠ '\\') {texts texts' : List (List Char)} (h : texts ≠ [])
    (h' : texts' ≠ []) (hs : ∀ s ∈ texts, Solid sep s) (hs' : ∀ s ∈ texts', Solid sep s)
    (heq : [sep].intercalate texts = [sep].intercalate texts') : texts = texts' := by
  induction texts generalizing texts' with
  | nil => exact absurd rfl h
  | cons s rest ih =>
    obtain ⟨hsolid, hrest⟩ := List.forall_mem_cons.mp hs
    cases texts' with
    | nil => exact absurd rfl h'
    | cons s' rest' =>
      obtain ⟨hsolid', hrest'⟩ := List.forall_mem_cons.mp hs'
      cases rest with
      | nil =>
        cases rest' with
        | nil =>
          rw [List.intercalate_singleton, List.intercalate_singleton] at heq
          rw [heq]
        | cons t' rest' =>
          rw [List.intercalate_singleton, List.intercalate_cons_cons, List.append_assoc,
            List.singleton_append] at heq
          exact absurd (heq ▸ hsolid) (hsolid'.not_append hne)
      | cons t rest =>
        cases rest' with
        | nil =>
          rw [List.intercalate_singleton, List.intercalate_cons_cons, List.append_assoc,
            List.singleton_append] at heq
          exact absurd (heq ▸ hsolid') (hsolid.not_append hne)
        | cons t' rest' =>
          rw [List.intercalate_cons_cons, List.intercalate_cons_cons, List.append_assoc,
            List.append_assoc, List.singleton_append, List.singleton_append] at heq
          obtain ⟨hhead, htail⟩ := hsolid.cut hne hsolid' heq
          rw [hhead, ih (List.cons_ne_nil _ _) (List.cons_ne_nil _ _) hrest hrest' htail]

end Solid

/-! ## What is read is solid -/

section Read

variable {sep : Char} {s : List Char} {o : List UInt8}

/-- The two separators of the grammar. -/
def IsSep (sep : Char) : Prop := sep = ',' ∨ sep = '+'

theorem IsSep.ne_esc (h : IsSep sep) : sep ≠ '\\' := by
  rcases h with rfl | rfl <;> decide

theorem IsSep.escaped (h : IsSep sep) : sep ∈ escaped := by
  rcases h with rfl | rfl <;> decide

theorem ne_of_isHex (h : IsSep sep) {c : Char} (hc : isHex c = true) : c ≠ '\\' ∧ c ≠ sep := by
  constructor
  · rintro rfl
    exact absurd hc (by decide)
  · rintro rfl
    rcases h with rfl | rfl <;> exact absurd hc (by decide)

theorem Pair.solid (h : IsSep sep) (hp : Pair s o) : Solid sep s := by
  cases hp with
  | esc => exact .pair _ .nil
  | special _ => exact .pair _ .nil
  | hex _ hl => exact .pair _ (.char (ne_of_isHex h hl).1 (ne_of_isHex h hl).2 .nil)

theorem Piece.solid (h : IsSep sep) {ok : Char → Prop} (hok : ∀ c, ok c → StringChar c)
    (hp : Piece ok s o) : Solid sep s := by
  cases hp with
  | char hc =>
    have hchar := hok _ hc
    exact .char hchar.ne_esc (fun heq => hchar.unescaped (heq ▸ h.escaped)) .nil
  | pair hp => exact hp.solid h

theorem Pieces.solid (h : IsSep sep) (hp : Pieces StringChar s o) : Solid sep s := by
  induction hp with
  | nil => exact .nil
  | cons hp _ ih => exact (hp.solid h fun _ hc => hc).append ih

theorem StringValue.solid (h : IsSep sep) (hv : StringValue s o) : Solid sep s := by
  cases hv with
  | empty => exact .nil
  | one hp => exact hp.solid h fun _ hc => hc.toStringChar
  | more hp hm ht =>
    refine (hp.solid h fun _ hc => hc.toStringChar).append ((hm.solid h).append ?_)
    exact ht.solid h fun _ hc => hc.toStringChar

theorem IsValue.solid (h : IsSep sep) {value : Value} (hv : IsValue s value) : Solid sep s := by
  cases hv with
  | string hv => exact hv.solid h
  | @hex pairs hne hpairs =>
    have hsharp : '#' ≠ sep := by rcases h with rfl | rfl <;> decide
    refine .char (by decide) hsharp (solid_of_forall fun c hc => ?_)
    obtain ⟨p, hp, hc⟩ := List.mem_flatMap.mp hc
    obtain ⟨hh, hl⟩ := hpairs p hp
    rcases List.mem_pair.mp hc with rfl | rfl
    · exact ne_of_isHex h hh
    · exact ne_of_isHex h hl

/-- The characters of a type. -/
theorem IsType.chars (ht : IsType s) {c : Char} (hc : c ∈ s) : isKeyChar c = true ∨ c = '.' := by
  cases ht with
  | descr halpha hs =>
    rcases List.mem_cons.mp hc with rfl | hc
    · exact .inl (by rw [isKeyChar, Char.isAlphanum, halpha]; rfl)
    · exact .inl (hs c hc)
  | numericoid _ hs =>
    rcases Separator.mem_intercalate hc with rfl | ⟨number, hnumber, hc⟩
    · exact .inr rfl
    · have hdigit : c.isDigit = true := (hs number hnumber).2.1 c hc
      exact .inl (by rw [isKeyChar, Char.isAlphanum, hdigit, Bool.or_true]; rfl)

theorem IsType.solid (h : IsSep sep) (ht : IsType s) : Solid sep s := by
  refine solid_of_forall fun c hc => ?_
  rcases ht.chars hc with hkey | rfl
  · constructor
    · rintro rfl
      exact absurd hkey (by decide)
    · rintro rfl
      rcases h with rfl | rfl <;> exact absurd hkey (by decide)
  · rcases h with rfl | rfl <;> decide

/-- A type ends where its value is announced. -/
theorem IsType.solid_eq (ht : IsType s) : Solid '=' s := by
  refine solid_of_forall fun c hc => ?_
  rcases ht.chars hc with hkey | rfl
  · constructor
    · rintro rfl
      exact absurd hkey (by decide)
    · rintro rfl
      exact absurd hkey (by decide)
  · decide

theorem IsAtv.solid (h : IsSep sep) {a : Atv} (ha : IsAtv s a) : Solid sep s := by
  obtain ⟨ht, v, rfl, hv⟩ := ha
  have heq : '=' ≠ sep := by rcases h with rfl | rfl <;> decide
  exact (ht.solid h).append (.char (by decide) heq (hv.solid h))

/-- The other separator does not count. -/
theorem solid_intercalate {other : Char} (hesc : other ≠ '\\') (hother : other ≠ sep)
    {texts : List (List Char)} (h : ∀ t ∈ texts, Solid sep t) : Solid sep ([other].intercalate texts) := by
  induction texts with
  | nil => exact .nil
  | cons t rest ih =>
    obtain ⟨ht, hrest⟩ := List.forall_mem_cons.mp h
    cases rest with
    | nil => rwa [List.intercalate_singleton]
    | cons u rest =>
      rw [List.intercalate_cons_cons, List.append_assoc, List.singleton_append]
      exact ht.append (.char hesc hother (ih hrest))

/-- Texts side by side with what they stand for, and one more in between. -/
theorem forall₂_hole {α β : Type} {R : α → β → Prop} {before after : List (α × β)} {a : α} {b : β} :
    List.Forall₂ R (before.map Prod.fst ++ a :: after.map Prod.fst)
        (before.map Prod.snd ++ b :: after.map Prod.snd) ↔
      (∀ p ∈ before, R p.1 p.2) ∧ R a b ∧ ∀ p ∈ after, R p.1 p.2 := by
  have hfst : before.map Prod.fst ++ a :: after.map Prod.fst =
      (before ++ (a, b) :: after).map Prod.fst := by rw [List.map_append, List.map_cons]
  have hsnd : before.map Prod.snd ++ b :: after.map Prod.snd =
      (before ++ (a, b) :: after).map Prod.snd := by rw [List.map_append, List.map_cons]
  rw [hfst, hsnd, List.forall₂_map_left_iff, List.forall₂_map_right_iff, List.forall₂_same,
    List.forall_mem_append, List.forall_mem_cons]

theorem forall_left {α β : Type} {R : α → β → Prop} {Q : α → Prop} (h : ∀ a b, R a b → Q a)
    {as : List α} {bs : List β} (hs : List.Forall₂ R as bs) : ∀ a ∈ as, Q a := by
  induction hs with
  | nil => exact fun _ hmem => absurd hmem List.not_mem_nil
  | cons hab _ ih => exact List.forall_mem_cons.mpr ⟨h _ _ hab, ih⟩

theorem IsRdn.solid {rdn : List Atv} (h : IsRdn s rdn) : Solid ',' s := by
  obtain ⟨texts, -, rfl, hs⟩ := h
  exact solid_intercalate (by decide) (by decide) (forall_left (fun _ _ ha => ha.solid (.inl rfl)) hs)

end Read

/-- An attribute is read in one way. -/
theorem IsAtv.unique {a b : Atv} (h : IsAtv s a) (h' : IsAtv s b) : a = b := by
  obtain ⟨ht, v, rfl, hv⟩ := h
  obtain ⟨ht', v', heq, hv'⟩ := h'
  obtain ⟨htype, rfl⟩ := ht.solid_eq.cut (by decide) ht'.solid_eq heq
  have hvalue : a.value = b.value := hv.unique hv'
  cases a
  cases b
  rw [Atv.mk.injEq]
  exact ⟨htype, hvalue⟩

theorem IsRdn.unique {rdn rdn' : List Atv} (h : IsRdn s rdn) (h' : IsRdn s rdn') : rdn = rdn' := by
  obtain ⟨texts, hne, rfl, hs⟩ := h
  obtain ⟨texts', hne', heq, hs'⟩ := h'
  obtain rfl : texts = texts' :=
    intercalate_inj (by decide) hne hne' (forall_left (fun _ _ ha => ha.solid (.inr rfl)) hs)
      (forall_left (fun _ _ ha => ha.solid (.inr rfl)) hs') heq
  exact List.right_unique_forall₂' (fun _ _ _ ha hb => ha.unique hb) hs hs'

theorem IsAtv.ne_nil {a : Atv} (h : IsAtv s a) : s ≠ [] := by
  obtain ⟨-, v, rfl, -⟩ := h
  exact List.append_ne_nil_of_right_ne_nil _ (List.cons_ne_nil _ _)

theorem IsRdn.ne_nil {rdn : List Atv} (h : IsRdn s rdn) : s ≠ [] := by
  obtain ⟨texts, hne, rfl, hs⟩ := h
  intro hnil
  have hall := forall_left (fun _ _ ha => ha.ne_nil) hs
  rcases Separator.intercalate_eq_nil_iff.mp hnil with rfl | rfl
  · exact hne rfl
  · exact hall [] List.mem_cons_self rfl

/-- **A distinguished name is read in one way.** -/
theorem IsDn.unique {dn dn' : List (List Atv)} (h : IsDn s dn) (h' : IsDn s dn') : dn = dn' := by
  have hempty : ∀ texts dn, texts ≠ [] → [','].intercalate texts = [] → ¬ List.Forall₂ IsRdn texts dn := by
    intro texts dn hne hnil hs
    have hall := forall_left (fun _ _ hr => hr.ne_nil) hs
    rcases Separator.intercalate_eq_nil_iff.mp hnil with rfl | rfl
    · exact hne rfl
    · exact hall [] List.mem_cons_self rfl
  rcases h with ⟨rfl, rfl⟩ | ⟨texts, hne, rfl, hs⟩ <;> rcases h' with ⟨hnil, rfl⟩ | ⟨texts', hne', heq, hs'⟩
  · rfl
  · exact absurd hs' (hempty _ _ hne' heq.symm)
  · exact absurd hs (hempty _ _ hne hnil)
  · obtain rfl : texts = texts' :=
      intercalate_inj (by decide) hne hne' (forall_left (fun _ _ hr => hr.solid) hs)
        (forall_left (fun _ _ hr => hr.solid) hs') heq
    exact List.right_unique_forall₂' (fun _ _ _ ha hb => ha.unique hb) hs hs'

/-! ## A place for a value -/

/-- **A distinguished name with a hole** for the value of one attribute. -/
structure Hole where
  before : List (List Char × List Atv)
  left : List (List Char × Atv)
  type : List Char
  right : List (List Char × Atv)
  after : List (List Char × List Atv)
  before_isRdn : ∀ p ∈ before, IsRdn p.1 p.2
  left_isAtv : ∀ p ∈ left, IsAtv p.1 p.2
  type_isType : IsType type
  right_isAtv : ∀ p ∈ right, IsAtv p.1 p.2
  after_isRdn : ∀ p ∈ after, IsRdn p.1 p.2

namespace Hole

variable (T : Hole) {v : List Char} {value : Value}

/-- The attributes of the hole's relative distinguished name. -/
def atvs (v : List Char) : List (List Char) :=
  T.left.map Prod.fst ++ (T.type ++ '=' :: v) :: T.right.map Prod.fst

/-- The relative distinguished names. -/
def rdns (v : List Char) : List (List Char) :=
  T.before.map Prod.fst ++ ['+'].intercalate (T.atvs v) :: T.after.map Prod.fst

/-- The text with a text in the hole. -/
def text (v : List Char) : List Char := [','].intercalate (T.rdns v)

/-- The name with a value in the hole. -/
def fill (value : Value) : List (List Atv) :=
  T.before.map Prod.snd ++
    (T.left.map Prod.snd ++ ⟨T.type, value⟩ :: T.right.map Prod.snd) :: T.after.map Prod.snd

/-- What comes before the hole. -/
def front : List Char :=
  (T.before.map Prod.fst).flatMap (· ++ [',']) ++
    ((T.left.map Prod.fst).flatMap (· ++ ['+']) ++ (T.type ++ ['=']))

/-- What comes after it. -/
def back : List Char :=
  (T.right.map Prod.fst).flatMap ('+' :: ·) ++ (T.after.map Prod.fst).flatMap (',' :: ·)

theorem text_eq (v : List Char) : T.text v = T.front ++ (v ++ T.back) := by
  rw [text, rdns, Separator.intercalate_middle, atvs, Separator.intercalate_middle, front, back]
  simp only [List.append_assoc, List.cons_append, List.nil_append]

/-- Around the hole everything reads as it should. -/
theorem isRdn_atvs_iff :
    List.Forall₂ IsAtv (T.atvs v) (T.left.map Prod.snd ++ ⟨T.type, value⟩ :: T.right.map Prod.snd) ↔
      IsAtv (T.type ++ '=' :: v) ⟨T.type, value⟩ := by
  rw [atvs, forall₂_hole]
  exact ⟨fun h => h.2.1, fun h => ⟨T.left_isAtv, h, T.right_isAtv⟩⟩

theorem isAtv_iff : IsAtv (T.type ++ '=' :: v) ⟨T.type, value⟩ ↔ IsValue v value := by
  constructor
  · rintro ⟨ht, v', heq, hv⟩
    obtain ⟨-, rfl⟩ := ht.solid_eq.cut (by decide) ht.solid_eq heq
    exact hv
  · exact fun hv => ⟨T.type_isType, v, rfl, hv⟩

theorem atvs_ne_nil : T.atvs v ≠ [] :=
  List.append_ne_nil_of_right_ne_nil _ (List.cons_ne_nil _ _)

theorem rdns_ne_nil : T.rdns v ≠ [] :=
  List.append_ne_nil_of_right_ne_nil _ (List.cons_ne_nil _ _)

/-- The attributes are told apart. -/
theorem solid_atvs {sep : Char} (h : IsSep sep) (hv : Solid sep v) : ∀ s ∈ T.atvs v, Solid sep s := by
  have hne : '=' ≠ sep := by rcases h with rfl | rfl <;> decide
  rw [atvs, List.forall_mem_append, List.forall_mem_cons, List.forall_mem_map, List.forall_mem_map]
  exact ⟨fun p hp => (T.left_isAtv p hp).solid h,
    (T.type_isType.solid h).append (.char (by decide) hne hv),
    fun p hp => (T.right_isAtv p hp).solid h⟩

/-- The relative distinguished names are told apart. -/
theorem solid_rdns (hv : Solid ',' v) : ∀ s ∈ T.rdns v, Solid ',' s := by
  rw [rdns, List.forall_mem_append, List.forall_mem_cons, List.forall_mem_map, List.forall_mem_map]
  exact ⟨fun p hp => (T.before_isRdn p hp).solid,
    solid_intercalate (by decide) (by decide) (T.solid_atvs (.inl rfl) hv),
    fun p hp => (T.after_isRdn p hp).solid⟩

/-- **The hole reads as its value does.** -/
theorem isDn_iff (hcomma : Solid ',' v) (hplus : Solid '+' v) :
    IsDn (T.text v) (T.fill value) ↔ IsValue v value := by
  constructor
  · rintro (⟨-, hnil⟩ | ⟨texts, hne, heq, hs⟩)
    · exact absurd hnil (List.append_ne_nil_of_right_ne_nil _ (List.cons_ne_nil _ _))
    have htexts : T.rdns v = texts :=
      intercalate_inj (by decide) T.rdns_ne_nil hne (T.solid_rdns hcomma)
        (forall_left (fun _ _ h => h.solid) hs) heq
    rw [← htexts, rdns, fill, forall₂_hole] at hs
    obtain ⟨texts', hne', heq', hs'⟩ := hs.2.1
    have htexts' : T.atvs v = texts' :=
      intercalate_inj (by decide) T.atvs_ne_nil hne' (T.solid_atvs (.inr rfl) hplus)
        (forall_left (fun _ _ h => h.solid (.inr rfl)) hs') heq'
    rwa [← htexts', isRdn_atvs_iff, isAtv_iff] at hs'
  · intro hv
    refine .inr ⟨T.rdns v, T.rdns_ne_nil, rfl, ?_⟩
    rw [rdns, fill, forall₂_hole]
    refine ⟨T.before_isRdn, ⟨T.atvs v, T.atvs_ne_nil, rfl, ?_⟩, T.after_isRdn⟩
    rwa [isRdn_atvs_iff, isAtv_iff]

end Hole

end E2Mail.Lib.DistinguishedName
