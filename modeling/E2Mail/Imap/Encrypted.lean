import E2Mail.Imap.Attachments

/-!
# What an encrypted message keeps

For an encrypted message the first attachment with an encrypted text is taken out of the list. It
becomes the text body, if there is none.

* `KeepsContent` — no attachment is lost but the control part.
* `keepsContent_iff` — when this is so, for every message.
-/

namespace E2Mail.Imap

variable (L : MailLib)

/-- The data of an attachment are in the list of a message, or its text body. -/
def AttachmentInfo.KeptIn (a : AttachmentInfo) (msg : ParsedMessage) : Prop :=
  (∃ b ∈ msg.attachments, b.data = a.data) ∨ msg.textBody = a.data

/-- **Nothing is lost**: every attachment but a control part is kept. -/
def KeepsContent (msg : ParsedMessage) (isPgpMime : Bool) : Prop :=
  ∀ a ∈ msg.attachments, isPgpControl L a = false → a.KeptIn (handlePgpMime L msg isPgpMime)

/-- The first encrypted text of a message that has a text body already is that body, is in the
list once more, or is a control part. -/
def Duplicated (msg : ParsedMessage) : Prop :=
  ∀ a, msg.attachments.find? isPgpText = some a → isPgpControl L a = false →
    msg.textBody = a.data ∨
      ∃ b ∈ msg.attachments.eraseP isPgpText, isPgpControl L b = false ∧ b.data = a.data

variable {L}

theorem mem_eraseP_or_find? {p : AttachmentInfo → Bool} {l : List AttachmentInfo}
    {a : AttachmentInfo} (h : a ∈ l) : a ∈ l.eraseP p ∨ l.find? p = some a := by
  induction l with
  | nil => cases h
  | cons b l ih =>
    cases hb : p b with
    | true =>
      rw [List.eraseP_cons_of_pos hb, List.find?_cons_of_pos hb]
      rcases List.mem_cons.1 h with rfl | h
      · exact .inr rfl
      · exact .inl h
    | false =>
      rw [List.eraseP_cons_of_neg (by simp [hb]), List.find?_cons_of_neg (by simp [hb])]
      rcases List.mem_cons.1 h with rfl | h
      · exact .inl List.mem_cons_self
      · exact (ih h).imp (List.mem_cons_of_mem _) id

/-- What is not the first encrypted text stays in the list. -/
theorem keptIn_of_mem_eraseP {msg : ParsedMessage} {isPgpMime : Bool} {a b : AttachmentInfo}
    (hb : b ∈ msg.attachments.eraseP isPgpText) (hcontrol : isPgpControl L b = false)
    (hdata : b.data = a.data) : a.KeptIn (handlePgpMime L msg isPgpMime) := by
  left
  rw [handlePgpMime]
  split
  · exact ⟨b, List.mem_of_mem_eraseP hb, hdata⟩
  · refine ⟨b, List.mem_filter.2 ⟨hb, ?_⟩, hdata⟩
    rw [hcontrol]
    rfl

theorem handlePgpMime_plain {msg : ParsedMessage} (hbody : msg.textBody ≠ []) :
    handlePgpMime L msg false = msg := by
  rw [handlePgpMime, if_pos]
  simp [hbody]

/-- The text body of a message that has none is the first encrypted text. -/
theorem textBody_handlePgpMime {msg : ParsedMessage} {isPgpMime : Bool} {a : AttachmentInfo}
    (hbody : msg.textBody = [])
    (hrun : (!isPgpMime && (msg.textBody != [] || msg.htmlBody != [])) = false)
    (hfind : msg.attachments.find? isPgpText = some a) :
    (handlePgpMime L msg isPgpMime).textBody = a.data := by
  rw [handlePgpMime, hrun, if_neg Bool.false_ne_true, hfind, hbody]
  rfl

/-- An encrypted message with a text body keeps the body, and loses the encrypted text. -/
theorem handlePgpMime_encrypted {msg : ParsedMessage} (hbody : msg.textBody ≠ []) :
    (handlePgpMime L msg true).textBody = msg.textBody ∧
      (handlePgpMime L msg true).attachments =
        (msg.attachments.eraseP isPgpText).filter fun a => !isPgpControl L a := by
  refine ⟨?_, rfl⟩
  rw [handlePgpMime, Bool.not_true, Bool.false_and, if_neg Bool.false_ne_true]
  split
  · exact if_neg hbody
  · rfl

/-- **An encrypted message keeps its content** but when it has a text body and an encrypted text
that is not there twice. -/
theorem keepsContent_iff (L : MailLib) (msg : ParsedMessage) (isPgpMime : Bool) :
    KeepsContent L msg isPgpMime ↔ isPgpMime = false ∨ msg.textBody = [] ∨ Duplicated L msg := by
  constructor
  · intro h
    by_cases hmime : isPgpMime = false
    · exact .inl hmime
    by_cases hbody : msg.textBody = []
    · exact .inr (.inl hbody)
    right; right
    obtain rfl : isPgpMime = true := by simpa using hmime
    intro a hfind hcontrol
    obtain ⟨htext, hlist⟩ := handlePgpMime_encrypted (L := L) hbody
    rcases h a (List.mem_of_find?_eq_some hfind) hcontrol with ⟨b, hb, hdata⟩ | hdata
    · rw [hlist, List.mem_filter] at hb
      exact .inr ⟨b, hb.1, by simpa using hb.2, hdata⟩
    · rw [htext] at hdata
      exact .inl hdata
  · intro h a ha hcontrol
    rcases mem_eraseP_or_find? (p := isPgpText) ha with hkept | hfind
    · exact keptIn_of_mem_eraseP hkept hcontrol rfl
    by_cases hbody : msg.textBody = []
    · cases hrun : !isPgpMime && (msg.textBody != [] || msg.htmlBody != []) with
      | true =>
        left
        rw [handlePgpMime, if_pos hrun]
        exact ⟨a, ha, rfl⟩
      | false => exact .inr (textBody_handlePgpMime hbody hrun hfind)
    rcases h with rfl | h | h
    · left
      rw [handlePgpMime_plain hbody]
      exact ⟨a, ha, rfl⟩
    · exact absurd h hbody
    · rcases h a hfind hcontrol with hdata | ⟨b, hb, hcontrol', hdata⟩
      · cases isPgpMime with
        | false =>
          left
          rw [handlePgpMime_plain hbody]
          exact ⟨a, ha, rfl⟩
        | true =>
          right
          rw [(handlePgpMime_encrypted hbody).1, hdata]
      · exact keptIn_of_mem_eraseP hb hcontrol' hdata

/-- A text for those who cannot decrypt, and the encrypted text. -/
def withNotice : ParsedMessage :=
  collectParts asciiMail (populateHeaders asciiMail ⟨none, none, none, none, none, none, [], []⟩)
    [.inline (namedPart "text/plain" "") (utf8 "This message is encrypted."),
      .attachment (namedPart "application/pgp-encrypted" "") (utf8 "Version: 1"),
      .attachment (namedPart "application/octet-stream" "encrypted.asc")
        (utf8 "-----BEGIN PGP MESSAGE-----\n\nhQ==\n-----END PGP MESSAGE-----")]

theorem withNotice_loses : ¬∀ (L : MailLib) (msg : ParsedMessage) (isPgpMime : Bool),
    KeepsContent L msg isPgpMime := by
  intro h
  have hkept := h asciiMail withNotice true
  rw [KeepsContent] at hkept
  simp only [AttachmentInfo.KeptIn] at hkept
  revert hkept
  decide +kernel

end E2Mail.Imap
