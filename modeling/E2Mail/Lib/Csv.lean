import Mathlib.Data.List.Basic

/-!
# Comma-separated values

Records of fields, one record a line. A field with a comma, a quote or a line break in it is written
between quotes, and so is one that starts with a space.

* `writeAll` — the records as text.
* `Reading` — where the reader is; it leaves out spaces before a field, and takes a stray quote as it is.
* `records_writeAll` — what is written is read, with the line breaks made those of Unix.
-/

namespace E2Mail.Lib.Csv

abbrev Text := List Char

/-! ## Writing -/

section Write

variable (space : Char → Bool)

/-- Between the quotes, quotes are doubled. -/
def double (f : Text) : Text := f.flatMap fun c => if c = '"' then ['"', '"'] else [c]

/-- The characters that a field is put between quotes for. -/
def special (c : Char) : Bool := c == ',' || c == '"' || c == '\r' || c == '\n'

def needsQuotes (f : Text) : Bool := f == ['\\', '.'] || f.any special || f.head?.any space

def writeField (f : Text) : Text := if needsQuotes space f then '"' :: double f ++ ['"'] else f

def writeRecord : List Text → Text
  | [] => ['\n']
  | [f] => writeField space f ++ ['\n']
  | f :: fs => writeField space f ++ ',' :: writeRecord fs

def writeAll (rs : List (List Text)) : Text := rs.flatMap (writeRecord space)

end Write

/-! ## Reading -/

/-- A carriage return before a line feed is dropped. -/
def unixLines : Text → Text
  | [] => []
  | c :: s => if c = '\r' ∧ s.head? = some '\n' then unixLines s else c :: unixLines s

/-- And so is one at the very end. -/
def dropCR (s : Text) : Text := if s.getLast? = some '\r' then s.dropLast else s

inductive Mode where
  /-- at the start of a line, between records -/
  | start
  /-- before a field -/
  | field
  | bare
  | quoted
  /-- after a quote in a quoted field -/
  | closing
  deriving DecidableEq

/-- Where the reader is. -/
structure Reading where
  mode : Mode
  /-- the line of the record -/
  first : Nat
  line : Nat
  fields : List Text
  current : Text

/-- A record, with the number of its line. -/
abbrev Record := Nat × List Text

namespace Reading

variable (space : Char → Bool) (q : Reading)

/-- The current field ends. -/
def endField : Reading := { q with mode := .field, fields := q.fields ++ [q.current], current := [] }

/-- The record, with the current field. -/
def record : Record := (q.first, q.fields ++ [q.current])

/-- The line after a record. -/
def nextLine : Reading := ⟨.start, q.line + 1, q.line + 1, [], []⟩

def add (mode : Mode) (cs : Text) : Reading := { q with mode := mode, current := q.current ++ cs }

/-- A character of a record that has begun, and the record if it ends there. -/
def feed (c : Char) : List Record × Reading :=
  match q.mode with
  | .start | .field =>
    if c = '\n' then ([q.record], q.nextLine)
    else if space c then ([], { q with mode := .field })
    else if c = '"' then ([], { q with mode := .quoted })
    else if c = ',' then ([], q.endField)
    else ([], q.add .bare [c])
  | .bare =>
    if c = '\n' then ([q.record], q.nextLine)
    else if c = ',' then ([], q.endField)
    else ([], q.add .bare [c])
  | .quoted =>
    if c = '"' then ([], { q with mode := .closing })
    else ([], { q.add .quoted [c] with line := if c = '\n' then q.line + 1 else q.line })
  | .closing =>
    if c = '"' then ([], q.add .quoted ['"'])
    else if c = ',' then ([], q.endField)
    else if c = '\n' then ([q.record], q.nextLine)
    else ([], q.add .quoted ['"', c])

/-- A character; empty lines are no records. -/
def step (c : Char) : List Record × Reading :=
  if q.mode = .start ∧ c = '\n' then ([], q.nextLine) else q.feed space c

/-- The records of the rest of the text. -/
def records (q : Reading) : Text → List Record
  | [] => if q.mode = .start then [] else [q.record]
  | c :: s => (q.step space c).1 ++ records (q.step space c).2 s

end Reading

def start : Reading := ⟨.start, 1, 1, [], []⟩

/-- The records of a text. -/
def records (space : Char → Bool) (s : Text) : List Record := start.records space (dropCR (unixLines s))

/-- All records, if they have as many fields as the first, else the line of one that has not. -/
def readAll (space : Char → Bool) (s : Text) : Except Nat (List (List Text)) :=
  let rs := records space s
  match rs.find? fun r => r.2.length != ((rs.head?.map (·.2)).getD []).length with
  | some r => .error r.1
  | none => .ok (rs.map (·.2))

/-! ## Line breaks -/

section Lines

variable {space : Char → Bool} {f s t : Text}

theorem unixLines_cons {c : Char} (h : c ≠ '\r') : unixLines (c :: s) = c :: unixLines s :=
  if_neg fun hc => h hc.1

theorem unixLines_append (h : t.head? ≠ some '\n') : unixLines (s ++ t) = unixLines s ++ unixLines t := by
  induction s with
  | nil => rfl
  | cons c s ih =>
    have hhead : c = '\r' ∧ (s ++ t).head? = some '\n' ↔ c = '\r' ∧ s.head? = some '\n' := by
      cases s with
      | nil => simp [h]
      | cons d s => rfl
    rw [List.cons_append, unixLines, unixLines, ih]
    by_cases hc : c = '\r' ∧ s.head? = some '\n'
    · rw [if_pos (hhead.mpr hc), if_pos hc]
    · rw [if_neg fun hc' => hc (hhead.mp hc'), if_neg hc, List.cons_append]

theorem unixLines_append_of_not_mem (h : '\r' ∉ s) : unixLines (s ++ t) = s ++ unixLines t := by
  induction s with
  | nil => rfl
  | cons c s ih =>
    obtain ⟨hc, hs⟩ := not_or.mp (mt List.mem_cons.mpr h)
    rw [List.cons_append, unixLines_cons (Ne.symm hc), ih hs, List.cons_append]

theorem unixLines_of_not_mem (h : '\r' ∉ s) : unixLines s = s := by
  have happend := unixLines_append_of_not_mem (t := []) h
  rwa [List.append_nil, unixLines, List.append_nil] at happend

/-- Of a line break a line feed is left. -/
theorem any_special_unixLines (h : '\r' ∈ s) : (unixLines s).any special = true := by
  induction s with
  | nil => exact absurd h List.not_mem_nil
  | cons c s ih =>
    rw [unixLines]
    split
    · rename_i hc
      cases s with
      | nil => simp at hc
      | cons d s =>
        obtain rfl : d = '\n' := by simpa using hc.2
        rw [unixLines_cons (by decide)]
        rfl
    · rw [List.any_cons, Bool.or_eq_true]
      rcases List.mem_cons.mp h with rfl | hs
      · exact .inl rfl
      · exact .inr (ih hs)

theorem needsQuotes_unixLines : needsQuotes space (unixLines f) = needsQuotes space f := by
  by_cases h : '\r' ∈ f
  · have hold : f.any special = true := List.any_eq_true.mpr ⟨'\r', h, rfl⟩
    rw [needsQuotes, needsQuotes, hold, any_special_unixLines h]
    simp
  · rw [unixLines_of_not_mem h]

theorem head?_double : (double f).head? = f.head? := by
  cases f with
  | nil => rfl
  | cons c f =>
    rw [double, List.flatMap_cons]
    split
    · rename_i hc
      rw [hc]
      rfl
    · rfl

theorem double_cons (c : Char) : double (c :: f) = (if c = '"' then ['"', '"'] else [c]) ++ double f :=
  List.flatMap_cons

theorem unixLines_double : unixLines (double f) = double (unixLines f) := by
  induction f with
  | nil => rfl
  | cons c f ih =>
    by_cases hquote : c = '"'
    · subst hquote
      rw [double_cons, if_pos rfl, unixLines_append_of_not_mem (by decide), ih,
        unixLines_cons (by decide), double_cons, if_pos rfl]
    · rw [double_cons, if_neg hquote, List.singleton_append, unixLines, unixLines, head?_double, ih]
      split
      · rfl
      · rw [double_cons, if_neg hquote, List.singleton_append]

theorem not_mem_of_bare (h : needsQuotes space f = false) {c : Char} (hc : special c = true) : c ∉ f := by
  rw [needsQuotes, Bool.or_eq_false_iff, Bool.or_eq_false_iff] at h
  exact fun hin => List.any_eq_false.mp h.1.2 c hin hc

theorem unixLines_writeField :
    unixLines (writeField space f ++ s) = writeField space (unixLines f) ++ unixLines s := by
  rw [writeField, writeField, needsQuotes_unixLines]
  by_cases h : needsQuotes space f = true
  · have hsplit : ∀ g u : Text, '"' :: double g ++ ['"'] ++ u = '"' :: (double g ++ '"' :: u) := by simp
    have hhead : ('"' :: s).head? ≠ some '\n' := by simp
    rw [if_pos h, if_pos h, hsplit, hsplit, unixLines_cons (by decide), unixLines_append hhead,
      unixLines_double, unixLines_cons (by decide)]
  · have hcr := not_mem_of_bare (eq_false_of_ne_true h) (c := '\r') rfl
    rw [if_neg h, if_neg h, unixLines_append_of_not_mem hcr, unixLines_of_not_mem hcr]

theorem unixLines_writeRecord (r : List Text) :
    unixLines (writeRecord space r ++ s) = writeRecord space (r.map unixLines) ++ unixLines s := by
  induction r with
  | nil => exact unixLines_cons (by decide)
  | cons f r ih =>
    cases r with
    | nil =>
      rw [writeRecord, List.append_assoc, unixLines_writeField, List.singleton_append,
        unixLines_cons (by decide)]
      simp [writeRecord]
    | cons g r =>
      rw [writeRecord, List.append_assoc, unixLines_writeField, List.cons_append,
        unixLines_cons (by decide), ih]
      simp [writeRecord]
      exact List.cons_ne_nil _ _

theorem unixLines_writeAll (rs : List (List Text)) :
    unixLines (writeAll space rs) = writeAll space (rs.map (·.map unixLines)) := by
  induction rs with
  | nil => rfl
  | cons r rs ih =>
    rw [writeAll, List.flatMap_cons, unixLines_writeRecord, List.map_cons, writeAll, List.flatMap_cons]
    exact congrArg _ ih

theorem getLast?_writeRecord (r : List Text) : (writeRecord space r).getLast? = some '\n' := by
  induction r with
  | nil => rfl
  | cons f r ih =>
    cases r with
    | nil => rw [writeRecord, List.getLast?_concat]
    | cons g r =>
      rw [writeRecord, List.getLast?_append, List.getLast?_cons, ih]
      rfl
      exact List.cons_ne_nil _ _

theorem dropCR_writeAll (rs : List (List Text)) : dropCR (writeAll space rs) = writeAll space rs := by
  refine if_neg ?_
  induction rs with
  | nil => simp [writeAll]
  | cons r rs ih =>
    rw [writeAll, List.flatMap_cons, List.getLast?_append, getLast?_writeRecord]
    rw [writeAll] at ih
    cases hlast : (rs.flatMap (writeRecord space)).getLast? with
    | none => simp
    | some c => simpa [hlast] using ih

end Lines

/-! ## What is written is read -/

namespace Reading

variable {space : Char → Bool} {q : Reading} {f s : Text} {m : Mode} {a n : Nat} {fs : List Text} {x : Text}

theorem records_cons {c : Char} {out : List Record} {q' : Reading} (h : q.step space c = (out, q')) :
    q.records space (c :: s) = out ++ q'.records space s := by
  rw [records, h]

/-- Outside the start of a line every character counts. -/
theorem step_eq_feed {c : Char} (h : q.mode ≠ .start ∨ c ≠ '\n') : q.step space c = q.feed space c :=
  if_neg fun hstart => h.elim (fun hm => hm hstart.1) fun hc => hc hstart.2

theorem records_bare (hcomma : ',' ∉ f) (hline : '\n' ∉ f) :
    records space ⟨.bare, a, n, fs, x⟩ (f ++ s) = records space ⟨.bare, a, n, fs, x ++ f⟩ s := by
  induction f generalizing x with
  | nil => rw [List.nil_append, List.append_nil]
  | cons c f ih =>
    obtain ⟨hc, hcomma⟩ := not_or.mp (mt List.mem_cons.mpr hcomma)
    obtain ⟨hl, hline⟩ := not_or.mp (mt List.mem_cons.mpr hline)
    have hstep : step space ⟨.bare, a, n, fs, x⟩ c = ([], ⟨.bare, a, n, fs, x ++ [c]⟩) := by
      rw [step_eq_feed (.inl (by simp))]
      simp [feed, Ne.symm hl, Ne.symm hc, add]
    rw [List.cons_append, records_cons hstep, List.nil_append, ih hcomma hline, List.append_assoc,
      List.singleton_append]

theorem records_quoted :
    records space ⟨.quoted, a, n, fs, x⟩ (double f ++ '"' :: s) =
      records space ⟨.closing, a, n + f.count '\n', fs, x ++ f⟩ s := by
  induction f generalizing x n with
  | nil =>
    have hstep : step space ⟨.quoted, a, n, fs, x⟩ '"' = ([], ⟨.closing, a, n, fs, x⟩) := rfl
    rw [double, List.flatMap_nil, List.nil_append, records_cons hstep, List.nil_append, List.append_nil]
    rfl
  | cons c f ih =>
    by_cases hc : c = '"'
    · subst hc
      have hfirst : step space ⟨.quoted, a, n, fs, x⟩ '"' = ([], ⟨.closing, a, n, fs, x⟩) := rfl
      have hsecond : step space ⟨.closing, a, n, fs, x⟩ '"' = ([], ⟨.quoted, a, n, fs, x ++ ['"']⟩) := rfl
      rw [double_cons, if_pos rfl, List.append_assoc, List.cons_append, records_cons hfirst, List.nil_append,
        List.singleton_append, records_cons hsecond, List.nil_append, ih, List.append_assoc,
        List.singleton_append, List.count_cons_of_ne (by decide)]
    · have hstep : step space ⟨.quoted, a, n, fs, x⟩ c =
          ([], ⟨.quoted, a, if c = '\n' then n + 1 else n, fs, x ++ [c]⟩) := by
        rw [step_eq_feed (.inl (by simp))]
        simp [feed, hc, add]
      rw [double_cons, if_neg hc, List.singleton_append, List.cons_append, records_cons hstep,
        List.nil_append, ih, List.append_assoc, List.singleton_append]
      congr 2
      by_cases hline : c = '\n'
      · rw [if_pos hline, hline, List.count_cons_self]
        omega
      · rw [if_neg hline, List.count_cons_of_ne hline]

/-- A reader that is about to read a field. -/
def Ready (m : Mode) : Prop := m = .start ∨ m = .field

variable (hquote : space '"' = false) (hcomma : space ',' = false)

include hquote in
/-- The reader at the end of a field. -/
theorem records_writeField (hm : Ready m) (a n : Nat) (fs : List Text) (f s : Text) :
    ∃ m', (m' = .closing ∨ m' = .bare ∨ m' = m ∧ f = []) ∧
      records space ⟨m, a, n, fs, []⟩ (writeField space f ++ s) =
        records space ⟨m', a, n + f.count '\n', fs, f⟩ s := by
  by_cases hneeds : needsQuotes space f = true
  · have hsplit : '"' :: double f ++ ['"'] ++ s = '"' :: (double f ++ '"' :: s) := by simp
    have hstep : step space ⟨m, a, n, fs, []⟩ '"' = ([], ⟨.quoted, a, n, fs, []⟩) := by
      rw [step_eq_feed (.inr (by decide))]
      rcases hm with rfl | rfl <;> simp [feed, hquote]
    refine ⟨.closing, .inl rfl, ?_⟩
    rw [writeField, if_pos hneeds, hsplit, records_cons hstep, List.nil_append, records_quoted,
      List.nil_append]
  · have hbare := eq_false_of_ne_true hneeds
    rw [writeField, if_neg hneeds]
    cases f with
    | nil => exact ⟨m, .inr (.inr ⟨rfl, rfl⟩), rfl⟩
    | cons c f =>
      have hspace : space c = false := by
        rw [needsQuotes, Bool.or_eq_false_iff] at hbare
        exact hbare.2
      have hne : ∀ {d : Char}, special d = true → c ≠ d ∧ d ∉ f := fun hd => by
        obtain ⟨hc, hf⟩ := not_or.mp (mt List.mem_cons.mpr (not_mem_of_bare hbare hd))
        exact ⟨Ne.symm hc, hf⟩
      obtain ⟨hcomma, hcommas⟩ := hne (d := ',') rfl
      obtain ⟨hline, hlines⟩ := hne (d := '\n') rfl
      have hmark := (hne (d := '"') rfl).1
      have hstep : step space ⟨m, a, n, fs, []⟩ c = ([], ⟨.bare, a, n, fs, [c]⟩) := by
        rw [step_eq_feed (.inr hline)]
        rcases hm with rfl | rfl <;> simp [feed, add, hspace, hcomma, hline, hmark]
      refine ⟨.bare, .inr (.inl rfl), ?_⟩
      rw [List.cons_append, records_cons hstep, List.nil_append, records_bare hcommas hlines,
        List.count_cons_of_ne hline, List.count_eq_zero_of_not_mem hlines, Nat.add_zero,
        List.singleton_append]

include hquote hcomma in
/-- A field and the comma after it. -/
theorem records_writeField_comma (hm : Ready m) :
    records space ⟨m, a, n, fs, []⟩ (writeField space f ++ ',' :: s) =
      records space ⟨.field, a, n + f.count '\n', fs ++ [f], []⟩ s := by
  obtain ⟨m', hm', heq⟩ := records_writeField hquote hm a n fs f (',' :: s)
  have hstep : step space ⟨m', a, n + f.count '\n', fs, f⟩ ',' =
      ([], ⟨.field, a, n + f.count '\n', fs ++ [f], []⟩) := by
    rw [step_eq_feed (.inr (by decide))]
    rcases hm' with rfl | rfl | ⟨rfl, rfl⟩
    · rfl
    · rfl
    · rcases hm with rfl | rfl <;> simp [feed, hcomma, endField]
  rw [heq, records_cons hstep, List.nil_append]

include hquote in
/-- A field at the end of its line. -/
theorem records_writeField_line (hm : Ready m) (hne : m = .field ∨ f ≠ []) (a n : Nat)
    (fs : List Text) (s : Text) :
    ∃ k, records space ⟨m, a, n, fs, []⟩ (writeField space f ++ '\n' :: s) =
      (a, fs ++ [f]) :: records space ⟨.start, k, k, [], []⟩ s := by
  obtain ⟨m', hm', heq⟩ := records_writeField hquote hm a n fs f ('\n' :: s)
  have hnot : m' ≠ .start := by
    rintro rfl
    rcases hm' with h | h | ⟨rfl, rfl⟩
    · cases h
    · cases h
    · rcases hne with h | h
      · cases h
      · exact h rfl
  have hstep : step space ⟨m', a, n + f.count '\n', fs, f⟩ '\n' =
      ([(a, fs ++ [f])], ⟨.start, n + f.count '\n' + 1, n + f.count '\n' + 1, [], []⟩) := by
    rw [step_eq_feed (.inl hnot)]
    rcases hm' with rfl | rfl | ⟨rfl, rfl⟩
    · rfl
    · rfl
    · rcases hm with rfl | rfl <;> rfl
  exact ⟨_, by rw [heq, records_cons hstep, List.singleton_append]⟩

include hquote hcomma in
/-- The fields that are left of a record. -/
theorem records_writeRecord {r : List Text} (hm : Ready m) (hr : r ≠ [])
    (hne : m = .field ∨ r ≠ [[]]) (a n : Nat)
    (fs : List Text) (s : Text) :
    ∃ k, records space ⟨m, a, n, fs, []⟩ (writeRecord space r ++ s) =
      (a, fs ++ r) :: records space ⟨.start, k, k, [], []⟩ s := by
  induction r generalizing m n fs with
  | nil => exact absurd rfl hr
  | cons f r ih =>
    cases r with
    | nil =>
      have hlast : m = .field ∨ f ≠ [] := hne.imp_right fun h hf => h (by rw [hf])
      obtain ⟨k, hk⟩ := records_writeField_line hquote hm hlast a n fs s
      exact ⟨k, by rw [writeRecord, List.append_assoc, List.singleton_append, hk]⟩
    | cons g r =>
      obtain ⟨k, hk⟩ := ih (.inr rfl) (List.cons_ne_nil g r) (.inl rfl) (n + f.count '\n') (fs ++ [f])
      refine ⟨k, ?_⟩
      rw [writeRecord, List.append_assoc, List.cons_append, records_writeField_comma hquote hcomma hm, hk,
        List.append_assoc, List.singleton_append]
      exact List.cons_ne_nil _ _

/-- An empty line. -/
theorem records_empty_line : records space ⟨.start, a, n, [], []⟩ ('\n' :: s) =
    records space ⟨.start, n + 1, n + 1, [], []⟩ s := by
  have hstep : step space ⟨.start, a, n, [], []⟩ '\n' = ([], ⟨.start, n + 1, n + 1, [], []⟩) := rfl
  rw [records_cons hstep, List.nil_append]

include hquote hcomma in
theorem records_writeLines (rs : List (List Text)) (a n : Nat) :
    (records space ⟨.start, a, n, [], []⟩ (writeAll space rs)).map Prod.snd =
      rs.filter fun r => r ≠ [] ∧ r ≠ [[]] := by
  induction rs generalizing a n with
  | nil => rfl
  | cons r rs ih =>
    rw [writeAll, List.flatMap_cons]
    by_cases hr : r ≠ [] ∧ r ≠ [[]]
    · obtain ⟨k, hk⟩ := records_writeRecord hquote hcomma (.inl rfl) hr.1 (.inr hr.2) a n []
        (rs.flatMap (writeRecord space))
      rw [hk, List.map_cons, List.nil_append, List.filter_cons_of_pos (by simpa using hr)]
      exact congrArg _ (ih k k)
    · have hempty : writeRecord space r = ['\n'] := by
        rcases not_and_or.mp hr with h | h
        · rw [not_not.mp h, writeRecord]
        · rw [not_not.mp h]
          rfl
      rw [hempty, List.singleton_append, records_empty_line, List.filter_cons_of_neg (by simpa using hr)]
      exact ih (n + 1) (n + 1)

end Reading

section RoundTrip

variable {space : Char → Bool} (hquote : space '"' = false) (hcomma : space ',' = false)

theorem unixLines_eq_nil {f : Text} : unixLines f = [] ↔ f = [] := by
  refine ⟨fun h => ?_, fun h => by rw [h, unixLines]⟩
  by_contra hne
  by_cases hcr : '\r' ∈ f
  · have hany := any_special_unixLines hcr
    rw [h] at hany
    cases hany
  · exact hne ((unixLines_of_not_mem hcr).symm.trans h)

include hquote hcomma in
/-- **What is read** of what was written: every record that is not empty, with the line breaks of Unix. -/
theorem records_writeAll (rs : List (List Text)) :
    (records space (writeAll space rs)).map Prod.snd =
      (rs.filter fun r => r ≠ [] ∧ r ≠ [[]]).map (·.map unixLines) := by
  rw [records, unixLines_writeAll, dropCR_writeAll, start, Reading.records_writeLines hquote hcomma,
    List.filter_map]
  congr 1
  refine List.filter_congr fun r _ => ?_
  have hnil : r.map unixLines = [[]] ↔ r = [[]] := by
    cases r with
    | nil => simp
    | cons f r => simp [unixLines_eq_nil]
  simp [hnil]

include hquote hcomma in
/-- **Round trip** of records of one length, which is at least two. -/
theorem readAll_writeAll {rs : List (List Text)} {n : Nat} (hlen : ∀ r ∈ rs, r.length = n + 2) :
    readAll space (writeAll space rs) = .ok (rs.map (·.map unixLines)) := by
  have hread := records_writeAll hquote hcomma rs
  have hall : rs.filter (fun r => r ≠ [] ∧ r ≠ [[]]) = rs := by
    refine List.filter_eq_self.mpr fun r hr => ?_
    have hr := hlen r hr
    refine decide_eq_true ⟨?_, ?_⟩
    · rintro rfl
      cases hr
    · rintro rfl
      cases hr
  rw [hall] at hread
  have hlens : ∀ r ∈ records space (writeAll space rs), r.2.length = n + 2 := by
    intro r hr
    have hin := hread ▸ List.mem_map_of_mem (f := Prod.snd) hr
    obtain ⟨r', hr', heq⟩ := List.mem_map.mp hin
    rw [← heq, List.length_map, hlen r' hr']
  have hnone : (records space (writeAll space rs)).find? (fun r => r.2.length !=
      (((records space (writeAll space rs)).head?.map (·.2)).getD []).length) = none := by
    refine List.find?_eq_none.mpr fun r hr => ?_
    cases hhead : (records space (writeAll space rs)).head? with
    | none =>
      rw [List.head?_eq_none_iff.mp hhead] at hr
      exact absurd hr List.not_mem_nil
    | some r' => simp [hlens r hr, hlens r' (List.mem_of_head? hhead)]
  simp only [readAll, hnone]
  exact congrArg _ hread

end RoundTrip

end E2Mail.Lib.Csv
