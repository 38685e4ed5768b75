import E2Mail.Lib.Separator
import E2Mail.Frontend.MailStyles
import E2Mail.Smtp.Sender

/-!
# A message on its way to the sender

The client sends a message as JSON, or as a form if it has attachments. In a form the recipients are
joined with commas, and the server splits them there.

* `scalar`, `crlf` — what a browser makes of the texts of a form.
* `postOutgoing`, `parseOutgoingMessage` — the two sides.
* `SameRecipients` — the server gets the recipients with attachments that it gets without.
* `sameRecipients_iff` — when it does.
-/

namespace E2Mail.Smtp

open Lib Lib.Failure
open Frontend (JSText js unit)

/-! ## Texts -/

def isHigh (c : UInt16) : Bool := 0xD800 ≤ c && c ≤ 0xDBFF

def isLow (c : UInt16) : Bool := 0xDC00 ≤ c && c ≤ 0xDFFF

/-- A code unit by itself: half a surrogate pair is replaced. -/
def single (c : UInt16) : Char :=
  if isHigh c || isLow c then Char.ofNat 0xFFFD else Char.ofNat c.toNat

/-- The characters of a string, as a form or a JSON text has them. -/
def scalar : JSText → Text
  | [] => []
  | [c] => [single c]
  | c :: d :: s =>
    if isHigh c && isLow d then
      Char.ofNat (0x10000 + (c.toNat - 0xD800) * 0x400 + (d.toNat - 0xDC00)) :: scalar s
    else single c :: scalar (d :: s)

/-- The line breaks of a form: each becomes CR LF. -/
def crlf : Text → Text
  | [] => []
  | '\r' :: '\n' :: s => '\r' :: '\n' :: crlf s
  | '\r' :: s => '\r' :: '\n' :: crlf s
  | '\n' :: s => '\r' :: '\n' :: crlf s
  | c :: s => c :: crlf s

/-- All line breaks are CR LF. -/
def OnlyCrlf : Text → Prop
  | [] => True
  | '\r' :: '\n' :: s => OnlyCrlf s
  | '\r' :: _ => False
  | '\n' :: _ => False
  | _ :: s => OnlyCrlf s

/-! ## The client -/

/-- `File`. -/
structure File where
  name : JSText
  type : JSText
  data : Octets
  deriving DecidableEq

/-- `OutgoingMessage`, of the client. -/
structure ClientMessage where
  from_ : Option JSText := none
  to_ : List JSText
  cc : Option (List JSText) := none
  bcc : Option (List JSText) := none
  subject : JSText
  inReplyTo : Option JSText := none
  references : Option JSText := none
  textBody : Option JSText := none
  htmlBody : Option JSText := none
  attachments : Option (List File) := none

/-- What a field of a JSON object is. -/
inductive Json where
  | string (s : Text)
  | strings (list : List Text)

/-- The body of a request. -/
inductive Body where
  | json (fields : List (String × Json))
  | form (entries : List (String × Text)) (attachments : List File)

/-- `formData.append`. -/
def formEntry (name : String) (value : JSText) : String × Text := (name, crlf (scalar value))

/-- An entry for a value that is not empty. -/
def entryIf (name : String) (value : Option JSText) : List (String × Text) :=
  match value with
  | none | some [] => []
  | some s => [formEntry name s]

/-- An entry for a list that is not left out. -/
def joinIf (name : String) (list : Option (List JSText)) : List (String × Text) :=
  match list with
  | none => []
  | some list => [formEntry name ([unit ','].intercalate list)]

/-- The entries of the form after the recipients. -/
def restEntries (msg : ClientMessage) (account : Option JSText) : List (String × Text) :=
  formEntry "subject" msg.subject :: (entryIf "inReplyTo" msg.inReplyTo ++
    (entryIf "references" msg.references ++ (entryIf "textBody" msg.textBody ++
      (entryIf "htmlBody" msg.htmlBody ++ entryIf "account" account))))

/-- The form. -/
def formEntries (msg : ClientMessage) (account : Option JSText) : List (String × Text) :=
  entryIf "from" msg.from_ ++ (formEntry "to" ([unit ','].intercalate msg.to_) ::
    (joinIf "cc" msg.cc ++ (joinIf "bcc" msg.bcc ++ restEntries msg account)))

/-- A field that is left out when it is undefined. -/
def stringField (name : String) (value : Option JSText) : List (String × Json) :=
  (value.map fun s => (name, Json.string (scalar s))).toList

/-- A list, likewise. -/
def listField (name : String) (list : Option (List JSText)) : List (String × Json) :=
  (list.map fun l => (name, Json.strings (l.map scalar))).toList

/-- The fields of the object after the recipients. -/
def restFields (msg : ClientMessage) : List (String × Json) :=
  stringField "subject" (some msg.subject) ++ (stringField "inReplyTo" msg.inReplyTo ++
    (stringField "references" msg.references ++ (stringField "textBody" msg.textBody ++
      (stringField "htmlBody" msg.htmlBody ++
        listField "attachments" (msg.attachments.map fun _ => [])))))

/-- `JSON.stringify`, of a message without attachments. -/
def jsonFields (msg : ClientMessage) : List (String × Json) :=
  stringField "from" msg.from_ ++ (listField "to" (some msg.to_) ++ (listField "cc" msg.cc ++
    (listField "bcc" msg.bcc ++ restFields msg)))

/-- `postOutgoing`. -/
def postOutgoing (msg : ClientMessage) (account : Option JSText) : Body :=
  match msg.attachments with
  | some (file :: rest) => .form (formEntries msg account) (file :: rest)
  | _ => .json (jsonFields msg)

/-! ## The server -/

/-- What the server takes from its libraries. -/
structure Http where
  /-- the error of `ParseMultipartForm`, for a form that is too large -/
  parseErr : List (String × Text) → List File → Option Text
  /-- the error of `Decode`, for an object that is too large -/
  decodeErr : List (String × Json) → Option Text
  /-- an attachment, as it arrives -/
  upload : File → OutgoingAttachment

/-- `r.FormValue`. -/
def formValue (entries : List (String × Text)) (name : String) : Text :=
  ((entries.find? fun e => e.1 = name).map Prod.snd).getD []

/-- The recipients of an entry. -/
def splitValue (value : Text) : List Text := if value ≠ [] then value.splitOn ',' else []

/-- A text of the object, if it has one. -/
def jsonString (fields : List (String × Json)) (name : String) : Text :=
  match fields.find? fun f => f.1 = name with
  | some (_, .string s) => s
  | _ => []

/-- A list of the object, if it has one. -/
def jsonStrings (fields : List (String × Json)) (name : String) : List Text :=
  match fields.find? fun f => f.1 = name with
  | some (_, .strings list) => list
  | _ => []

/-- The message of a form. -/
def formMessage (H : Http) (accEmail : Text) (entries : List (String × Text)) (files : List File) :
    OutgoingMessage where
  from_ := if formValue entries "from" ≠ [] then formValue entries "from" else accEmail
  to_ := splitValue (formValue entries "to")
  cc := splitValue (formValue entries "cc")
  bcc := splitValue (formValue entries "bcc")
  subject := formValue entries "subject"
  inReplyTo := formValue entries "inReplyTo"
  references := formValue entries "references"
  textBody := formValue entries "textBody"
  htmlBody := formValue entries "htmlBody"
  attachments := files.map H.upload

/-- The message of a JSON object. -/
def jsonMessage (accEmail : Text) (fields : List (String × Json)) : OutgoingMessage where
  from_ := if jsonString fields "from" ≠ [] then jsonString fields "from" else accEmail
  to_ := jsonStrings fields "to"
  cc := jsonStrings fields "cc"
  bcc := jsonStrings fields "bcc"
  subject := jsonString fields "subject"
  inReplyTo := jsonString fields "inReplyTo"
  references := jsonString fields "references"
  textBody := jsonString fields "textBody"
  htmlBody := jsonString fields "htmlBody"

/-- `parseOutgoingMessage`. -/
def parseOutgoingMessage (H : Http) (accEmail : Text) : Body → Except Text OutgoingMessage
  | .form entries files =>
    match H.parseErr entries files with
    | some err => .error err
    | none => .ok (formMessage H accEmail entries files)
  | .json fields =>
    match H.decodeErr fields with
    | some err => .error err
    | none => .ok (jsonMessage accEmail fields)

/-! ## The recipients -/

/-- The server gets the recipients with attachments that it gets without. -/
def SameRecipients (H : Http) (accEmail : Text) (msg : ClientMessage) (account : Option JSText) : Prop :=
  ∃ multipart json, parseOutgoingMessage H accEmail (postOutgoing msg account) = .ok multipart ∧
    parseOutgoingMessage H accEmail (postOutgoing { msg with attachments := none } account) = .ok json ∧
    multipart.to_ = json.to_ ∧ multipart.cc = json.cc ∧ multipart.bcc = json.bcc

/-- A list that comes apart as it was put together. -/
structure Splits (list : List JSText) : Prop where
  ne_blank : list ≠ [[]]
  no_comma : ∀ entry ∈ list, unit ',' ∉ entry
  onlyCrlf : ∀ entry ∈ list, OnlyCrlf (scalar entry)

section Texts

variable {s t : JSText} {u v : Text}

theorem toNat_ofNat_of_valid {n : Nat} (h : n.isValidChar) : (Char.ofNat n).toNat = n := by
  rw [Char.ofNat, dif_pos h]
  rfl

/-- A code unit that is not half of a pair is a character. -/
theorem valid_of_single {c : UInt16} (h : ¬ (isHigh c || isLow c) = true) : c.toNat.isValidChar := by
  rw [isHigh, isLow, Bool.or_eq_true, Bool.and_eq_true, Bool.and_eq_true, decide_eq_true_eq,
    decide_eq_true_eq, decide_eq_true_eq, decide_eq_true_eq] at h
  simp only [UInt16.le_iff_toNat_le] at h
  have hlow : (0xD800 : UInt16).toNat = 0xD800 := rfl
  have hmid : (0xDBFF : UInt16).toNat = 0xDBFF := rfl
  have hmid' : (0xDC00 : UInt16).toNat = 0xDC00 := rfl
  have hhigh : (0xDFFF : UInt16).toNat = 0xDFFF := rfl
  have hlt : c.toNat < 65536 := c.toNat_lt
  rw [Nat.isValidChar]
  omega

theorem single_eq_comma {c : UInt16} : single c = ',' ↔ c = unit ',' := by
  constructor
  · intro h
    rw [single] at h
    split at h
    · exact absurd h (by decide)
    · rename_i hsingle
      have hnat := congrArg Char.toNat h
      rw [toNat_ofNat_of_valid (valid_of_single hsingle)] at hnat
      exact UInt16.toNat_inj.mp hnat
  · rintro rfl
    decide

/-- A pair is no comma. -/
theorem pair_ne_comma (c d : UInt16) :
    Char.ofNat (0x10000 + (c.toNat - 0xD800) * 0x400 + (d.toNat - 0xDC00)) ≠ ',' := by
  intro h
  by_cases hvalid : (0x10000 + (c.toNat - 0xD800) * 0x400 + (d.toNat - 0xDC00)).isValidChar
  · have hnat := congrArg Char.toNat h
    rw [toNat_ofNat_of_valid hvalid] at hnat
    have hcomma : ','.toNat = 44 := rfl
    omega
  · rw [Char.ofNat, dif_neg hvalid] at h
    exact absurd h (by decide)

theorem scalar_eq_nil_iff : scalar s = [] ↔ s = [] := by
  fun_cases scalar s with
  | case1 => simp
  | case2 => simp
  | case3 => simp
  | case4 => simp

/-- A comma is not half of a pair: the text around it is read apart. -/
theorem scalar_comma (s t : JSText) : scalar (s ++ unit ',' :: t) = scalar s ++ ',' :: scalar t := by
  have hcomma : single (unit ',') = ',' := single_eq_comma.mpr rfl
  have hfirst : ∀ t, scalar (unit ',' :: t) = ',' :: scalar t := by
    intro t
    cases t with
    | nil => exact congrArg (fun c => [c]) hcomma
    | cons d t =>
      have hhigh : isHigh (unit ',') = false := by decide
      rw [scalar, hhigh, Bool.false_and, if_neg Bool.false_ne_true, hcomma]
  fun_induction scalar s with
  | case1 => exact hfirst t
  | case2 c =>
    have hlow : isLow (unit ',') = false := by decide
    rw [List.singleton_append, scalar, hlow, Bool.and_false, if_neg Bool.false_ne_true, hfirst]
    rfl
  | case3 c d s hpair ih =>
    rw [List.cons_append, List.cons_append, scalar, if_pos hpair, ih, List.cons_append]
  | case4 c d s hpair ih =>
    rw [List.cons_append, List.cons_append, scalar, if_neg hpair, ← List.cons_append, ih,
      List.cons_append]

theorem comma_mem_scalar : ',' ∈ scalar s ↔ unit ',' ∈ s := by
  fun_induction scalar s with
  | case1 => exact iff_of_false List.not_mem_nil List.not_mem_nil
  | case2 c => rw [List.mem_singleton, List.mem_singleton, eq_comm, single_eq_comma, eq_comm]
  | case3 c d s hpair ih =>
    obtain ⟨hhigh, hlow⟩ := Bool.and_eq_true_iff.mp hpair
    have hc : unit ',' ≠ c := by
      rintro rfl
      exact absurd hhigh (by decide)
    have hd : unit ',' ≠ d := by
      rintro rfl
      exact absurd hlow (by decide)
    rw [List.mem_cons, List.mem_cons, List.mem_cons, ih]
    exact ⟨fun h => .inr (.inr (h.resolve_left (pair_ne_comma c d).symm)),
      fun h => .inr ((h.resolve_left hc).resolve_left hd)⟩
  | case4 c d s hpair ih =>
    rw [List.mem_cons, List.mem_cons, ih, eq_comm, single_eq_comma, eq_comm]

theorem crlf_eq_nil_iff : crlf u = [] ↔ u = [] := by
  fun_cases crlf u <;> simp

/-- Nor is it half of a line break. -/
theorem crlf_comma (u v : Text) : crlf (u ++ ',' :: v) = crlf u ++ ',' :: crlf v := by
  fun_induction crlf u with
  | case1 => rw [List.nil_append, crlf]; all_goals simp
  | case2 s ih => rw [List.cons_append, List.cons_append, crlf, ih]; rfl
  | case3 s h ih =>
    rw [List.cons_append, crlf, ih]
    · rfl
    · intro r hr
      cases s with
      | nil => cases hr
      | cons d s => exact h s (by rw [(List.cons.inj hr).1])
  | case4 s ih => rw [List.cons_append, crlf, ih]; rfl
  | case5 c s hcrlf hcr hlf ih =>
    rw [List.cons_append, crlf, ih, List.cons_append]
    · exact fun _ hc _ => hcr hc
    · exact hcr
    · exact hlf

theorem comma_mem_crlf : ',' ∈ crlf u ↔ ',' ∈ u := by
  fun_induction crlf u <;> simp_all

/-- A text stays as it is if its line breaks are what they become. -/
theorem crlf_eq_self_iff : crlf u = u ↔ OnlyCrlf u := by
  fun_induction crlf u with
  | case1 => exact iff_of_true rfl trivial
  | case2 s ih => rw [List.cons.injEq, List.cons.injEq, ih, OnlyCrlf, eq_self, eq_self, true_and, true_and]
  | case3 s h ih =>
    refine iff_of_false (fun heq => ?_) ?_
    · exact h (crlf s) (List.cons.inj heq).2.symm
    · rw [OnlyCrlf]
      · exact id
      · exact h
  | case4 s ih => exact iff_of_false (fun heq => absurd (List.cons.inj heq).1 (by decide)) id
  | case5 c s hcrlf hcr hlf ih =>
    rw [List.cons.injEq, ih, OnlyCrlf, eq_self, true_and]
    · exact fun _ hc _ => hcr hc
    · exact hcr
    · exact hlf

end Texts

section Recipients

variable {H : Http} {accEmail : Text} {msg : ClientMessage} {account : Option JSText}
  {list : List JSText} {name : String}

/-- What the form has for a list. -/
theorem joined_eq (list : List JSText) : crlf (scalar ([unit ','].intercalate list)) =
    [','].intercalate (list.map fun entry => crlf (scalar entry)) :=
  Separator.map_intercalate (f := fun entry => crlf (scalar entry)) rfl
    (fun s t => by rw [scalar_comma, crlf_comma]) list

/-- **A list comes back from the form** exactly if it splits. -/
theorem splitValue_iff :
    splitValue (crlf (scalar ([unit ','].intercalate list))) = list.map scalar ↔ Splits list := by
  rw [joined_eq, splitValue]
  set sent := list.map fun entry => crlf (scalar entry) with hsent
  have hblank : [','].intercalate sent = [] ↔ list = [] ∨ list = [[]] := by
    rw [Separator.intercalate_eq_nil_iff, hsent, List.map_eq_nil_iff, List.map_eq_singleton_iff]
    refine or_congr_right ⟨?_, ?_⟩
    · rintro ⟨entry, rfl, hentry⟩
      rw [scalar_eq_nil_iff.mp (crlf_eq_nil_iff.mp hentry)]
    · rintro rfl
      exact ⟨[], rfl, rfl⟩
  have hcomes : (∀ entry ∈ list, unit ',' ∉ entry) → list ≠ [] →
      ([','].intercalate sent).splitOn ',' = sent := by
    intro hfree hne
    refine Separator.splitOn_intercalate_iff.mpr ⟨fun hnil => hne (List.map_eq_nil_iff.mp hnil), ?_⟩
    intro piece hpiece
    obtain ⟨entry, hentry, rfl⟩ := List.mem_map.mp hpiece
    rw [comma_mem_crlf, comma_mem_scalar]
    exact hfree entry hentry
  constructor
  · intro h
    have hne : list ≠ [[]] := by
      intro heq
      rw [if_neg (not_not_intro (hblank.mpr (.inr heq))), heq] at h
      cases h
    by_cases hempty : list = []
    · rw [hempty]
      exact ⟨List.cons_ne_nil _ _ |>.symm, fun _ hmem => absurd hmem List.not_mem_nil,
        fun _ hmem => absurd hmem List.not_mem_nil⟩
    rw [if_pos (fun hnil => (hblank.mp hnil).elim hempty hne)] at h
    have hfree : ∀ entry ∈ list, unit ',' ∉ entry := by
      intro entry hentry
      rw [← comma_mem_scalar]
      refine @Separator.not_mem_splitOn Char _ ',' ([','].intercalate sent) (scalar entry) ?_
      rw [h]
      exact List.mem_map_of_mem hentry
    rw [hcomes hfree hempty] at h
    exact ⟨hne, hfree, fun entry hentry => crlf_eq_self_iff.mp (List.map_inj_left.mp h entry hentry)⟩
  · intro h
    by_cases hempty : list = []
    · rw [hempty, if_neg (not_not_intro (hblank.mpr (.inl hempty)))]
      rfl
    rw [if_pos (fun hnil => (hblank.mp hnil).elim hempty h.ne_blank), hcomes h.no_comma hempty, hsent]
    exact List.map_congr_left fun entry hentry => crlf_eq_self_iff.mpr (h.onlyCrlf entry hentry)

/-! ## What arrives under a name -/

theorem find?_append_of_ne {β : Type} {l r : List (String × β)} (h : ∀ e ∈ l, e.1 ≠ name) :
    (l ++ r).find? (fun e => e.1 = name) = r.find? fun e => e.1 = name := by
  rw [List.find?_append, List.find?_eq_none.mpr fun e he => by simpa using h e he, Option.none_or]

theorem fst_entryIf {value : Option JSText} {e : String × Text} (h : e ∈ entryIf name value) :
    e.1 = name := by
  unfold entryIf at h
  split at h
  · cases h
  · cases h
  · rw [List.mem_singleton.mp h, formEntry]

theorem fst_joinIf {l : Option (List JSText)} {e : String × Text} (h : e ∈ joinIf name l) :
    e.1 = name := by
  unfold joinIf at h
  split at h
  · cases h
  · rw [List.mem_singleton.mp h, formEntry]

theorem fst_stringField {value : Option JSText} {f : String × Json} (h : f ∈ stringField name value) :
    f.1 = name := by
  obtain ⟨s, -, rfl⟩ := Option.map_eq_some_iff.mp (Option.mem_toList.mp h)
  rfl

theorem fst_listField {l : Option (List JSText)} {f : String × Json} (h : f ∈ listField name l) :
    f.1 = name := by
  obtain ⟨s, -, rfl⟩ := Option.map_eq_some_iff.mp (Option.mem_toList.mp h)
  rfl

/-- What the form has for a list that may be left out. -/
def joined : Option (List JSText) → Text
  | none => []
  | some list => crlf (scalar ([unit ','].intercalate list))

theorem formValue_joinIf {before after : List (String × Text)} (hbefore : ∀ e ∈ before, e.1 ≠ name)
    (hafter : ∀ e ∈ after, e.1 ≠ name) (list : Option (List JSText)) :
    formValue (before ++ (joinIf name list ++ after)) name = joined list := by
  rw [formValue, find?_append_of_ne hbefore]
  cases list with
  | none =>
    rw [joinIf, List.nil_append, List.find?_eq_none.mpr fun e he => by simpa using hafter e he]
    rfl
  | some list =>
    rw [joinIf, List.singleton_append, List.find?_cons_of_pos (by rw [formEntry]; exact decide_eq_true rfl)]
    rfl

theorem jsonStrings_listField {before after : List (String × Json)}
    (hbefore : ∀ f ∈ before, f.1 ≠ name) (hafter : ∀ f ∈ after, f.1 ≠ name)
    (list : Option (List JSText)) :
    jsonStrings (before ++ (listField name list ++ after)) name = (list.getD []).map scalar := by
  rw [jsonStrings, find?_append_of_ne hbefore]
  cases list with
  | none =>
    rw [listField, Option.map_none, Option.toList_none, List.nil_append,
      List.find?_eq_none.mpr fun f hf => by simpa using hafter f hf]
    rfl
  | some list =>
    rw [listField, Option.map_some, Option.toList_some, List.singleton_append,
      List.find?_cons_of_pos (by exact decide_eq_true rfl)]
    rfl

/-- The names of the entries after the recipients. -/
theorem ne_of_mem_rest {e : String × Text} (hname : name ∈ ["to", "cc", "bcc"])
    (h : e ∈ restEntries msg account) : e.1 ≠ name := by
  have hother : e.1 ∈ ["subject", "inReplyTo", "references", "textBody", "htmlBody", "account"] := by
    simp only [restEntries, List.mem_cons, List.mem_append] at h
    rcases h with rfl | h | h | h | h | h
    · exact List.mem_cons_self
    all_goals
      rw [fst_entryIf h]
      decide
  intro heq
  rw [heq] at hother
  simp only [List.mem_cons, List.not_mem_nil, or_false] at hname
  rcases hname with rfl | rfl | rfl <;> exact absurd hother (by decide)

theorem ne_of_fst {β : Type} {e : String × β} {other : String} (he : e.1 = other) (h : other ≠ name) :
    e.1 ≠ name := he ▸ h

theorem formValue_to : formValue (formEntries msg account) "to" = joined (some msg.to_) := by
  refine @formValue_joinIf "to" (entryIf "from" msg.from_)
    (joinIf "cc" msg.cc ++ (joinIf "bcc" msg.bcc ++ _)) ?_ ?_ (some msg.to_)
  · exact fun e he => ne_of_fst (fst_entryIf he) (by decide)
  · intro e he
    rcases List.mem_append.mp he with he | he
    · exact ne_of_fst (fst_joinIf he) (by decide)
    rcases List.mem_append.mp he with he | he
    · exact ne_of_fst (fst_joinIf he) (by decide)
    · exact ne_of_mem_rest (by decide) he

theorem formValue_cc : formValue (formEntries msg account) "cc" = joined msg.cc := by
  have hsplit : formEntries msg account =
      (entryIf "from" msg.from_ ++ joinIf "to" (some msg.to_)) ++
        (joinIf "cc" msg.cc ++ (joinIf "bcc" msg.bcc ++ restEntries msg account)) := by
    rw [List.append_assoc]
    rfl
  rw [hsplit]
  refine formValue_joinIf ?_ ?_ msg.cc
  · intro e he
    rcases List.mem_append.mp he with he | he
    · exact ne_of_fst (fst_entryIf he) (by decide)
    · exact ne_of_fst (fst_joinIf he) (by decide)
  · intro e he
    rcases List.mem_append.mp he with he | he
    · exact ne_of_fst (fst_joinIf he) (by decide)
    · exact ne_of_mem_rest (by decide) he

theorem formValue_bcc : formValue (formEntries msg account) "bcc" = joined msg.bcc := by
  have hsplit : formEntries msg account =
      (entryIf "from" msg.from_ ++ (joinIf "to" (some msg.to_) ++ joinIf "cc" msg.cc)) ++
        (joinIf "bcc" msg.bcc ++ restEntries msg account) := by
    rw [List.append_assoc, List.append_assoc]
    rfl
  rw [hsplit]
  refine formValue_joinIf ?_ (fun e he => ne_of_mem_rest (by decide) he) msg.bcc
  intro e he
  rcases List.mem_append.mp he with he | he
  · exact ne_of_fst (fst_entryIf he) (by decide)
  rcases List.mem_append.mp he with he | he
  · exact ne_of_fst (fst_joinIf he) (by decide)
  · exact ne_of_fst (fst_joinIf he) (by decide)

/-- The names of the fields after the recipients. -/
theorem ne_of_mem_fields {f : String × Json} (hname : name ∈ ["to", "cc", "bcc"])
    (h : f ∈ restFields msg) : f.1 ≠ name := by
  have hother : f.1 ∈ ["subject", "inReplyTo", "references", "textBody", "htmlBody", "attachments"] := by
    simp only [restFields, List.mem_append] at h
    rcases h with h | h | h | h | h | h
    rotate_right
    · rw [fst_listField h]
      decide
    all_goals
      rw [fst_stringField h]
      decide
  intro heq
  rw [heq] at hother
  simp only [List.mem_cons, List.not_mem_nil, or_false] at hname
  rcases hname with rfl | rfl | rfl <;> exact absurd hother (by decide)

theorem jsonStrings_to : jsonStrings (jsonFields msg) "to" = msg.to_.map scalar := by
  refine @jsonStrings_listField "to" (stringField "from" msg.from_)
    (listField "cc" msg.cc ++ (listField "bcc" msg.bcc ++ _)) ?_ ?_ (some msg.to_)
  · exact fun f hf => ne_of_fst (fst_stringField hf) (by decide)
  · intro f hf
    rcases List.mem_append.mp hf with hf | hf
    · exact ne_of_fst (fst_listField hf) (by decide)
    rcases List.mem_append.mp hf with hf | hf
    · exact ne_of_fst (fst_listField hf) (by decide)
    · exact ne_of_mem_fields (by decide) hf

theorem jsonStrings_cc : jsonStrings (jsonFields msg) "cc" = (msg.cc.getD []).map scalar := by
  have hsplit : jsonFields msg = (stringField "from" msg.from_ ++ listField "to" (some msg.to_)) ++
      (listField "cc" msg.cc ++ (listField "bcc" msg.bcc ++ restFields msg)) := by
    rw [List.append_assoc]
    rfl
  rw [hsplit]
  refine jsonStrings_listField ?_ ?_ msg.cc
  · intro f hf
    rcases List.mem_append.mp hf with hf | hf
    · exact ne_of_fst (fst_stringField hf) (by decide)
    · exact ne_of_fst (fst_listField hf) (by decide)
  · intro f hf
    rcases List.mem_append.mp hf with hf | hf
    · exact ne_of_fst (fst_listField hf) (by decide)
    · exact ne_of_mem_fields (by decide) hf

theorem jsonStrings_bcc : jsonStrings (jsonFields msg) "bcc" = (msg.bcc.getD []).map scalar := by
  have hsplit : jsonFields msg =
      (stringField "from" msg.from_ ++ (listField "to" (some msg.to_) ++ listField "cc" msg.cc)) ++
        (listField "bcc" msg.bcc ++ restFields msg) := by
    rw [List.append_assoc, List.append_assoc]
    rfl
  rw [hsplit]
  refine jsonStrings_listField ?_ (fun f hf => ne_of_mem_fields (by decide) hf) msg.bcc
  intro f hf
  rcases List.mem_append.mp hf with hf | hf
  · exact ne_of_fst (fst_stringField hf) (by decide)
  rcases List.mem_append.mp hf with hf | hf
  · exact ne_of_fst (fst_listField hf) (by decide)
  · exact ne_of_fst (fst_listField hf) (by decide)

/-- A list that may be left out comes back from the form exactly if it splits. -/
theorem splitValue_joined_iff (list : Option (List JSText)) :
    splitValue (joined list) = (list.getD []).map scalar ↔ Splits (list.getD []) := by
  cases list with
  | none =>
    refine iff_of_true rfl ⟨(List.cons_ne_nil _ _).symm, ?_, ?_⟩
    · exact fun _ hmem => absurd hmem List.not_mem_nil
    · exact fun _ hmem => absurd hmem List.not_mem_nil
  | some list => exact splitValue_iff

/-- **The recipients with attachments are those without** if and only if neither request is too large
and each list splits. -/
theorem sameRecipients_iff (H : Http) (accEmail : Text) (msg : ClientMessage)
    (account : Option JSText) {files : List File} (h : msg.attachments = some files)
    (hne : files ≠ []) : SameRecipients H accEmail msg account ↔
      (H.parseErr (formEntries msg account) files = none ∧
        H.decodeErr (jsonFields { msg with attachments := none }) = none) ∧
        Splits msg.to_ ∧ Splits (msg.cc.getD []) ∧ Splits (msg.bcc.getD []) := by
  obtain ⟨file, rest, rfl⟩ := List.exists_cons_of_ne_nil hne
  have hform : postOutgoing msg account = .form (formEntries msg account) (file :: rest) := by
    rw [postOutgoing, h]
  have hjson : postOutgoing { msg with attachments := none } account =
      .json (jsonFields { msg with attachments := none }) := rfl
  set multipart := formMessage H accEmail (formEntries msg account) (file :: rest) with hmultipart
  set json := jsonMessage accEmail (jsonFields { msg with attachments := none }) with hobject
  have hto : multipart.to_ = json.to_ ↔ Splits msg.to_ := by
    show splitValue (formValue _ "to") = jsonStrings _ "to" ↔ _
    rw [formValue_to, jsonStrings_to]
    exact splitValue_joined_iff (some msg.to_)
  have hcc : multipart.cc = json.cc ↔ Splits (msg.cc.getD []) := by
    show splitValue (formValue _ "cc") = jsonStrings _ "cc" ↔ _
    rw [formValue_cc, jsonStrings_cc]
    exact splitValue_joined_iff msg.cc
  have hbcc : multipart.bcc = json.bcc ↔ Splits (msg.bcc.getD []) := by
    show splitValue (formValue _ "bcc") = jsonStrings _ "bcc" ↔ _
    rw [formValue_bcc, jsonStrings_bcc]
    exact splitValue_joined_iff msg.bcc
  have hparse : ∀ message, parseOutgoingMessage H accEmail (.form (formEntries msg account) (file :: rest)) =
      .ok message ↔ H.parseErr (formEntries msg account) (file :: rest) = none ∧ multipart = message := by
    intro message
    rw [parseOutgoingMessage]
    cases H.parseErr (formEntries msg account) (file :: rest) <;> simp [hmultipart]
  have hdecode : ∀ message, parseOutgoingMessage H accEmail (.json (jsonFields { msg with attachments := none })) =
      .ok message ↔ H.decodeErr (jsonFields { msg with attachments := none }) = none ∧ json = message := by
    intro message
    rw [parseOutgoingMessage]
    cases H.decodeErr (jsonFields { msg with attachments := none }) <;> simp [hobject]
  rw [SameRecipients, hform, hjson, ← hto, ← hcc, ← hbcc]
  constructor
  · rintro ⟨left, right, hleft, hright, heq⟩
    obtain ⟨hfits, rfl⟩ := (hparse left).mp hleft
    obtain ⟨hfits', rfl⟩ := (hdecode right).mp hright
    exact ⟨⟨hfits, hfits'⟩, heq⟩
  · rintro ⟨⟨hfits, hfits'⟩, heq⟩
    exact ⟨multipart, json, (hparse _).mpr ⟨hfits, rfl⟩, (hdecode _).mpr ⟨hfits', rfl⟩, heq⟩

end Recipients

/-- A library that takes every request. -/
def Http.sample : Http where
  parseErr _ _ := none
  decodeErr _ := none
  upload file := ⟨scalar file.name, scalar file.type, file.data⟩

/-- A message with an attachment. -/
def ClientMessage.sample (recipients : List String) : ClientMessage where
  to_ := recipients.map js
  subject := js "hi"
  attachments := some [⟨js "a.txt", js "text/plain", []⟩]

theorem sameRecipients_sample :
    Splits [js "you@x.org", js "Ann <ann@x.org>"] ∧
      SameRecipients Http.sample "me@x.org".toList (.sample ["you@x.org", "Ann <ann@x.org>"]) none := by
  have hlines : ∀ entry ∈ [js "you@x.org", js "Ann <ann@x.org>"], crlf (scalar entry) = scalar entry := by
    decide
  have hsplits : Splits [js "you@x.org", js "Ann <ann@x.org>"] :=
    ⟨by decide, by decide, fun entry hentry => crlf_eq_self_iff.mp (hlines entry hentry)⟩
  have hnone : Splits [] := ⟨by decide, by simp, by simp⟩
  exact ⟨hsplits, (sameRecipients_iff Http.sample "me@x.org".toList
    (.sample ["you@x.org", "Ann <ann@x.org>"]) none rfl (List.cons_ne_nil _ _)).mpr
    ⟨⟨rfl, rfl⟩, hsplits, hnone, hnone⟩⟩

/-- A name with a comma is sent to two recipients. -/
theorem comma_splits :
    ¬ SameRecipients Http.sample "me@x.org".toList (.sample ["\"Doe, Jane\" <jane@x.org>"]) none := by
  rintro ⟨multipart, json, hmultipart, hjson, heq, -⟩
  obtain rfl := Except.ok.inj hmultipart
  obtain rfl := Except.ok.inj hjson
  exact absurd heq (by decide)

end E2Mail.Smtp
