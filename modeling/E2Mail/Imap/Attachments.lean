import E2Mail.Imap.Message
import Mathlib.Data.List.Nodup
import Mathlib.Data.List.Pairwise

/-!
# Attachments and their numbers

Attachment parts are numbered among themselves, inline parts by their place among all
attachments, and a download looks for a number and for a Content-ID at once.

* `KeptPart` — a part that is kept as an attachment, with both counts;
* `parseMessage_attachments` — the attachments of a message are the listed ones of them;
* `Downloadable` — every attachment has a number of its own and is found by it;
* `downloadable_iff` — just if the two ways of counting do not meet, and no Content-ID is
  the number of another attachment.
-/

namespace E2Mail.Imap

open Lib

variable {L : MailLib}

/-! ## Parts that are kept -/

/-- The part becomes an attachment of the message. -/
def Part.isKept (L : MailLib) (msg : ParsedMessage) : Part → Bool
  | .attachment _ _ => true
  | .inline h _ =>
    !((utf8 "text/plain").isPrefixOf h.contentType && msg.textBody == []) &&
      !((utf8 "text/html").isPrefixOf h.contentType && msg.htmlBody == []) && !isPlaceholder L h

/-- The part is an inline part. -/
def Part.isInlinePart : Part → Bool
  | .inline _ _ => true
  | .attachment _ _ => false

/-- A part that is kept as an attachment. -/
structure KeptPart where
  /-- it is an inline part -/
  inline : Bool
  /-- the attachments up to it -/
  place : Nat
  /-- the attachment parts up to it -/
  count : Nat
  /-- the attachment -/
  info : AttachmentInfo

/-- The number of an attachment. -/
def KeptPart.number (k : KeptPart) : Nat := if k.inline then k.place else k.count

/-- The parts that are kept, from a state of the reading on. -/
def keptFrom (L : MailLib) : ParsedMessage × Nat → List Part → List KeptPart
  | _, [] => []
  | st, part :: parts =>
    let st' := collectPart L st part
    if part.isKept L st.1 then
      (st'.1.attachments.getLast?.map fun info =>
        ⟨part.isInlinePart, st'.1.attachments.length, st'.2, info⟩).toList ++ keptFrom L st' parts
    else keptFrom L st' parts

/-- The parts of a message that are kept. -/
def keptParts (L : MailLib) (h : MailHeader) (parts : List Part) : List KeptPart :=
  keptFrom L (populateHeaders L h, 0) parts

/-- The kept parts that are listed: what belongs to an encrypted message is taken out. -/
def listedParts (L : MailLib) (h : MailHeader) (parts : List Part) : List KeptPart :=
  let msg := collectParts L (populateHeaders L h) parts
  let kept := keptParts L h parts
  if !h.isPgpMime L && (msg.textBody != [] || msg.htmlBody != []) then kept
  else (kept.eraseP fun k => isPgpText k.info).filter fun k => !isPgpControl L k.info

/-- **One part**: it is not kept and changes no attachment, or it is added with the number
of its kind. -/
theorem collectPart_cases (st : ParsedMessage × Nat) (part : Part) :
    (part.isKept L st.1 = false ∧ (collectPart L st part).1.attachments = st.1.attachments ∧
      (collectPart L st part).2 = st.2) ∨
    (part.isKept L st.1 = true ∧
      (collectPart L st part).2 = st.2 + (if part.isInlinePart then 0 else 1) ∧
      ∃ info, (collectPart L st part).1.attachments = st.1.attachments ++ [info] ∧
        info.id = decimal (if part.isInlinePart then st.1.attachments.length + 1 else st.2 + 1)) := by
  cases part with
  | attachment h body => exact .inr ⟨rfl, rfl, _, rfl, rfl⟩
  | inline h body =>
    rw [Part.isKept, collectPart, handleInlinePart]
    dsimp only
    split
    · rename_i htext
      exact .inl ⟨by rw [htext]; rfl, rfl, rfl⟩
    · rename_i htext
      rw [Bool.not_eq_true] at htext
      split
      · rename_i hhtml
        exact .inl ⟨by rw [hhtml]; simp, rfl, rfl⟩
      · rename_i hhtml
        rw [Bool.not_eq_true] at hhtml
        split
        · rename_i hplace
          exact .inl ⟨by rw [hplace]; simp, rfl, rfl⟩
        · rename_i hplace
          rw [Bool.not_eq_true] at hplace
          exact .inr ⟨by rw [htext, hhtml, hplace]; rfl, rfl, _, rfl, rfl⟩

/-- The counts of a kept part, where so many attachments and attachment parts came before. -/
structure KeptPart.Counted (places counts : Nat) (k : KeptPart) : Prop where
  place : places < k.place
  count : counts + (if k.inline then 0 else 1) ≤ k.count
  le : k.count ≤ k.place
  id : k.info.id = decimal k.number

theorem KeptPart.Counted.mono {places counts places' counts' : Nat} {k : KeptPart}
    (h : k.Counted places counts) (hplaces : places' ≤ places) (hcounts : counts' ≤ counts) :
    k.Counted places' counts' :=
  ⟨Nat.lt_of_le_of_lt hplaces h.place, Nat.le_trans (Nat.add_le_add_right hcounts _) h.count,
    h.le, h.id⟩

/-- The second kept part is counted after the first. -/
def KeptPart.Before (k k' : KeptPart) : Prop := k'.Counted k.place k.count

/-- **The reading** collects the kept parts, counted in their order. -/
theorem keptFrom_spec (st : ParsedMessage × Nat) (parts : List Part)
    (hst : st.2 ≤ st.1.attachments.length) :
    (parts.foldl (collectPart L) st).1.attachments =
        st.1.attachments ++ (keptFrom L st parts).map KeptPart.info ∧
      (∀ k ∈ keptFrom L st parts, k.Counted st.1.attachments.length st.2) ∧
      (keptFrom L st parts).Pairwise KeptPart.Before := by
  induction parts generalizing st with
  | nil => exact ⟨(List.append_nil _).symm, by simp [keptFrom], .nil⟩
  | cons part parts ih =>
    rw [List.foldl_cons, keptFrom]
    obtain ⟨hkept, hatts, hidx⟩ | ⟨hkept, hidx, info, hatts, hid⟩ := collectPart_cases (L := L) st part
    · rw [hkept, if_neg Bool.false_ne_true]
      have hrest := ih (collectPart L st part) (by rwa [hatts, hidx])
      rwa [hatts, hidx] at hrest
    · have hlength : (collectPart L st part).1.attachments.length = st.1.attachments.length + 1 := by
        rw [hatts, List.length_append, List.length_singleton]
      obtain ⟨hall, hcounted, hpairs⟩ := ih (collectPart L st part) (by
        rw [hlength, hidx]
        split <;> omega)
      rw [hkept, if_pos rfl]
      have hlast : (collectPart L st part).1.attachments.getLast? = some info := by
        rw [hatts, List.getLast?_concat]
      rw [hlast, Option.map_some, Option.toList_some, List.singleton_append]
      refine ⟨?_, ?_, ?_⟩
      · rw [hall, hatts, List.map_cons, List.append_assoc, List.singleton_append]
      · refine List.forall_mem_cons.mpr ⟨⟨?_, ?_, ?_, ?_⟩, fun k hk => (hcounted k hk).mono ?_ ?_⟩
        · dsimp only
          omega
        · dsimp only
          rw [hidx]
        · dsimp only
          rw [hidx, hlength]
          split <;> omega
        · rw [hid, KeptPart.number]
          dsimp only
          rw [hlength, hidx]
          cases part.isInlinePart <;> rfl
        · omega
        · omega
      · exact List.pairwise_cons.mpr ⟨hcounted, hpairs⟩

theorem listedParts_sublist (h : MailHeader) (parts : List Part) :
    (listedParts L h parts).Sublist (keptParts L h parts) := by
  rw [listedParts]
  split
  · exact List.Sublist.refl _
  · exact List.filter_sublist.trans List.eraseP_sublist

/-- **The attachments of a message** are the listed ones of the kept parts. -/
theorem parseMessage_attachments (h : MailHeader) (parts : List Part) :
    (parseMessage L h parts).attachments = (listedParts L h parts).map KeptPart.info := by
  obtain ⟨hall, -, -⟩ := keptFrom_spec (L := L) (populateHeaders L h, 0) parts (Nat.zero_le _)
  have hkept : (collectParts L (populateHeaders L h) parts).attachments =
      (keptParts L h parts).map KeptPart.info := by
    rw [collectParts, hall]
    rfl
  rw [parseMessage, handlePgpMime, listedParts]
  split
  · exact hkept
  · dsimp only
    rw [hkept, List.eraseP_map, List.filter_map]
    rfl

theorem listedParts_counted (h : MailHeader) (parts : List Part) :
    (∀ k ∈ listedParts L h parts, k.Counted 0 0) ∧ (listedParts L h parts).Pairwise KeptPart.Before := by
  obtain ⟨-, hcounted, hpairs⟩ := keptFrom_spec (L := L) (populateHeaders L h, 0) parts (Nat.zero_le _)
  have hsub := listedParts_sublist (L := L) h parts
  exact ⟨fun k hk => hcounted k (hsub.subset hk), hpairs.sublist hsub⟩

/-! ## Numbers -/

/-- The numbers of the two kinds do not meet. -/
def CountsApart (listed : List KeptPart) : Prop :=
  ∀ a ∈ listed, ∀ b ∈ listed, a.inline = true → b.inline = false → a.place ≠ b.count

/-- Two attachments have different numbers, unless an inline part comes first. -/
theorem KeptPart.Before.number_ne {a b : KeptPart} (ha : a.Counted 0 0) (hab : a.Before b)
    (h : a.inline = true → b.inline = false → a.place ≠ b.count) : a.number ≠ b.number := by
  have hplace := hab.place
  have hcount := hab.count
  have hle := ha.le
  rw [KeptPart.number, KeptPart.number]
  cases hainline : a.inline with
  | true =>
    cases hbinline : b.inline with
    | true => exact Nat.ne_of_lt hplace
    | false => exact h hainline hbinline
  | false =>
    rw [if_neg Bool.false_ne_true]
    cases hbinline : b.inline with
    | true =>
      rw [if_pos rfl]
      omega
    | false =>
      rw [hbinline, if_neg Bool.false_ne_true] at hcount
      rw [if_neg Bool.false_ne_true]
      omega

/-- **The numbers are distinct** just if those of the two kinds do not meet. -/
theorem ids_nodup_iff (h : MailHeader) (parts : List Part) :
    ((parseMessage L h parts).attachments.map AttachmentInfo.id).Nodup ↔
      CountsApart (listedParts L h parts) := by
  obtain ⟨hcounted, hpairs⟩ := listedParts_counted (L := L) h parts
  rw [parseMessage_attachments, List.map_map]
  have hid : ∀ k ∈ listedParts L h parts, k.info.id = decimal k.number :=
    fun k hk => (hcounted k hk).id
  constructor
  · intro hnodup a ha b hb hainline hbinline heq
    have hab : a = b := by
      refine List.inj_on_of_nodup_map hnodup ha hb ?_
      rw [Function.comp_apply, Function.comp_apply, hid a ha, hid b hb, KeptPart.number, KeptPart.number,
        if_pos hainline, hbinline, if_neg Bool.false_ne_true, heq]
    rw [hab, hbinline] at hainline
    cases hainline
  · intro hapart
    rw [List.Nodup, List.pairwise_map]
    refine hpairs.imp_of_mem fun {a b} ha hb hab hsame => ?_
    rw [Function.comp_apply, Function.comp_apply, hid a ha, hid b hb] at hsame
    exact hab.number_ne (hcounted a ha) (hapart a ha b hb) (decimal_injective hsame)

/-! ## Downloads -/

/-- Every attachment has a number of its own, and is downloaded by it and by a Content-ID
that no other has. -/
structure Downloadable (attachments : List AttachmentInfo) : Prop where
  ids : (attachments.map AttachmentInfo.id).Nodup
  byID : ∀ a ∈ attachments, downloadAttachment attachments a.id = some a.download
  byContentID : ∀ l a r, attachments = l ++ a :: r → a.contentID ≠ [] →
    (∀ b ∈ l ++ r, b.contentID ≠ a.contentID) →
      downloadAttachment attachments a.contentID = some a.download

/-- Where a Content-ID is the number of another attachment, the two do not get in each
other's way. -/
structure NamesApart (listed : List KeptPart) : Prop where
  /-- the first one before an attachment that has its number as Content-ID is the same file -/
  number : ∀ l b r, listed = l ++ b :: r →
    ∀ a, l.find? (fun a => a.info.contentID == decimal b.number) = some a →
      a.info.download = b.info.download
  /-- one before an attachment that alone has its number as Content-ID is the same file -/
  contentID : ∀ l a r, listed = l ++ a :: r → a.info.contentID ≠ [] →
    (∀ b ∈ l ++ r, b.info.contentID ≠ a.info.contentID) →
      ∀ b ∈ l, decimal b.number = a.info.contentID → b.info.download = a.info.download

/-- What is found is the first that is before an element, or the element. -/
theorem find?_split {α : Type} {p : α → Bool} {a : α} (l r : List α) (ha : p a = true) :
    (l ++ a :: r).find? p = some ((l.find? p).getD a) := by
  rw [List.find?_append, List.find?_cons_of_pos ha]
  cases l.find? p <;> rfl

/-- A number finds the one that has it. -/
theorem find?_id {attachments : List AttachmentInfo} {b : AttachmentInfo}
    (hnodup : (attachments.map AttachmentInfo.id).Nodup) (hb : b ∈ attachments) :
    attachments.find? (fun c => c.id == b.id) = some b := by
  have hsome : (attachments.find? fun c => c.id == b.id).isSome := by
    rw [List.find?_isSome]
    exact ⟨b, hb, beq_self_eq_true b.id⟩
  obtain ⟨c, hc⟩ := Option.isSome_iff_exists.mp hsome
  have hid : (c.id == b.id) = true := List.find?_some (p := fun c : AttachmentInfo => c.id == b.id) hc
  rw [hc, List.inj_on_of_nodup_map hnodup (List.mem_of_find?_eq_some hc) hb (beq_iff_eq.mp hid)]

section Names

variable {l r : List AttachmentInfo} {a : AttachmentInfo}

/-- A number finds its attachment, unless one before it has it as Content-ID. -/
theorem download_id (hnodup : ((l ++ a :: r).map AttachmentInfo.id).Nodup) :
    downloadAttachment (l ++ a :: r) a.id =
      some ((l.find? fun b => b.contentID == a.id).getD a).download := by
  have hne : ∀ b ∈ l, b.id ≠ a.id := by
    intro b hb heq
    rw [List.map_append, List.map_cons, List.nodup_append] at hnodup
    exact hnodup.2.2 _ (List.mem_map.mpr ⟨b, hb, rfl⟩) _ List.mem_cons_self heq
  have hpred : ∀ b ∈ l, (b.id == a.id || b.contentID == a.id) = (b.contentID == a.id) := by
    intro b hb
    rw [beq_eq_false_iff_ne.mpr (hne b hb), Bool.false_or]
  have hfind : (l.find? fun b => b.id == a.id || b.contentID == a.id) =
      l.find? fun b => b.contentID == a.id := by
    clear hnodup hne
    induction l with
    | nil => rfl
    | cons b l ih =>
      rw [List.find?_cons, List.find?_cons, hpred b List.mem_cons_self,
        ih fun c hc => hpred c (List.mem_cons_of_mem b hc)]
  rw [downloadAttachment, find?_split l r (by simp), Option.map_some, hfind]

/-- A Content-ID finds its attachment, unless it is the number of one before it. -/
theorem download_contentID (hunique : ∀ b ∈ l ++ r, b.contentID ≠ a.contentID) :
    downloadAttachment (l ++ a :: r) a.contentID =
      some ((l.find? fun b => b.id == a.contentID).getD a).download := by
  have hpred : ∀ b ∈ l, (b.id == a.contentID || b.contentID == a.contentID) =
      (b.id == a.contentID) := by
    intro b hb
    rw [beq_eq_false_iff_ne.mpr (hunique b (List.mem_append_left r hb)), Bool.or_false]
  have hfind : (l.find? fun b => b.id == a.contentID || b.contentID == a.contentID) =
      l.find? fun b => b.id == a.contentID := by
    clear hunique
    induction l with
    | nil => rfl
    | cons b l ih =>
      rw [List.find?_cons, List.find?_cons, hpred b List.mem_cons_self,
        ih fun c hc => hpred c (List.mem_cons_of_mem b hc)]
  rw [downloadAttachment, find?_split l r (by simp), Option.map_some, hfind]

end Names

/-- **Attachments and downloads.** The attachments of a message have numbers of their own and
are found by them and by their Content-IDs just if the places of the listed inline parts
are no counts of listed attachment parts, and a Content-ID that is the number of another
attachment does not get in its way. -/
theorem downloadable_iff (L : MailLib) (h : MailHeader) (parts : List Part) :
    Downloadable (parseMessage L h parts).attachments ↔
      CountsApart (listedParts L h parts) ∧ NamesApart (listedParts L h parts) := by
  obtain ⟨hcounted, -⟩ := listedParts_counted (L := L) h parts
  have hids := ids_nodup_iff (L := L) h parts
  rw [parseMessage_attachments] at hids ⊢
  generalize listedParts L h parts = listed at hcounted hids ⊢
  have hid : ∀ k ∈ listed, k.info.id = decimal k.number := fun k hk => (hcounted k hk).id
  constructor
  · intro hdown
    refine ⟨hids.mp hdown.ids, ⟨?_, ?_⟩⟩
    · rintro l b r rfl a ha
      have hmap : (l ++ b :: r).map KeptPart.info = l.map KeptPart.info ++ b.info :: r.map KeptPart.info := by
        rw [List.map_append, List.map_cons]
      have hfound := hdown.byID b.info (List.mem_map.mpr ⟨b, by simp, rfl⟩)
      have hnodup := hdown.ids
      rw [hmap] at hfound hnodup
      have hfirst : (l.map KeptPart.info).find? (fun c => c.contentID == b.info.id) = some a.info := by
        rw [List.find?_map, Option.map_eq_some_iff]
        refine ⟨a, ?_, rfl⟩
        rw [← ha, hid b (by simp)]
        rfl
      rw [download_id hnodup, hfirst, Option.some_inj] at hfound
      exact hfound
    · rintro l a r rfl hne hunique b hb hnumber
      have hmap : (l ++ a :: r).map KeptPart.info = l.map KeptPart.info ++ a.info :: r.map KeptPart.info := by
        rw [List.map_append, List.map_cons]
      have hunique' : ∀ c ∈ l.map KeptPart.info ++ r.map KeptPart.info, c.contentID ≠ a.info.contentID := by
        rw [← List.map_append, List.forall_mem_map]
        exact hunique
      have hfound := hdown.byContentID _ _ _ hmap hne hunique'
      have hnodup := hdown.ids
      rw [hmap, download_contentID hunique'] at hfound
      have hfirst : (l.map KeptPart.info).find? (fun c => c.id == a.info.contentID) = some b.info := by
        rw [← hnumber, ← hid b (List.mem_append_left _ hb)]
        rw [hmap, List.map_append] at hnodup
        exact find?_id hnodup.of_append_left (List.mem_map.mpr ⟨b, hb, rfl⟩)
      rw [hfirst, Option.some_inj] at hfound
      exact hfound
  · rintro ⟨hcounts, hnames⟩
    have hnodup := hids.mpr hcounts
    refine ⟨hnodup, ?_, ?_⟩
    · intro b hb
      obtain ⟨k, hk, rfl⟩ := List.mem_map.mp hb
      obtain ⟨l, r, rfl⟩ := List.append_of_mem hk
      rw [List.map_append, List.map_cons] at hnodup ⊢
      rw [download_id hnodup, List.find?_map, hid k hk]
      cases hfind : l.find? ((fun c => c.contentID == decimal k.number) ∘ KeptPart.info) with
      | none => rfl
      | some a =>
        rw [Option.map_some, Option.getD_some, hnames.number l k r rfl a hfind]
    · intro l a r hsplit hne hunique
      obtain ⟨l', rest, rfl, rfl, hrest⟩ := List.map_eq_append_iff.mp hsplit
      obtain ⟨k, r', rfl, rfl, rfl⟩ := List.map_eq_cons_iff.mp hrest
      rw [← List.map_append, List.forall_mem_map] at hunique
      rw [List.map_append, List.map_cons, download_contentID (by
        rw [← List.map_append, List.forall_mem_map]
        exact hunique), List.find?_map]
      cases hfind : l'.find? ((fun c => c.id == k.info.contentID) ∘ KeptPart.info) with
      | none => rfl
      | some b =>
        have hbmem := List.mem_of_find?_eq_some hfind
        have hbid : (b.info.id == k.info.contentID) = true :=
          List.find?_some (p := (fun c : AttachmentInfo => c.id == k.info.contentID) ∘ KeptPart.info) hfind
        rw [Option.map_some, Option.getD_some,
          hnames.contentID l' k r' rfl hne hunique b hbmem
            ((hid b (List.mem_append_left _ hbmem)).symm.trans (beq_iff_eq.mp hbid))]

/-- Libraries that know no charset but UTF-8, no encoded words and the ASCII letters. -/
def asciiMail : MailLib where
  toLower := lowerKey
  trimSpace s := ((s.dropWhile isSpaceByte).reverse.dropWhile isSpaceByte).reverse
  equalFold s t := lowerKey s == lowerKey t
  utf8Valid _ := true
  convert _ _ := none
  decodeWords := some

/-- The header of a part with a type and a name. -/
def namedPart (contentType filename : String) : PartHeader :=
  ⟨utf8 contentType, [], [], utf8 filename, utf8 filename, [], [], []⟩

/-- An image within the text, and a document. -/
def illustrated : List Part :=
  [.inline (namedPart "text/plain" "") (utf8 "see below"),
    .inline (namedPart "image/png" "logo.png") [137, 80, 78, 71],
    .attachment (namedPart "application/pdf" "report.pdf") [37, 80, 68, 70]]

/-- **An inline part before an attachment part** has its number: the document is not
downloaded by its own. -/
theorem illustrated_not_downloadable : ¬∀ (L : MailLib) (h : MailHeader) (parts : List Part),
    Downloadable (parseMessage L h parts).attachments := by
  intro h
  have hnodup := (h asciiMail ⟨none, none, none, none, none, none, [], []⟩ illustrated).ids
  exact absurd hnodup (by decide +kernel)

end E2Mail.Imap
