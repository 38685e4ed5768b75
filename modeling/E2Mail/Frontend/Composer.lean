import E2Mail.Sieve.Generator

/-!
# Sending from the composer

`handleSubmit` checks the recipient and one's own key, and `performSend` looks up a key for each
recipient, encrypts the body and the attachments and hands the message to the server. The
dialogue that asks for a passphrase calls `performSend` by itself. OpenPGP is ideal: what is
encrypted is known by its text, the keys it is encrypted to and the key that signs it.

* `performSend`, `handleSubmit` — what is sent, or why nothing is;
* `KeyOf` — the keys of an address;
* `Readable` — what is sent encrypted can be read by every recipient;
* `readable_iff` — when it can.
-/

namespace E2Mail.Frontend

open Sieve (Text splitList trim)

/-! ## The surroundings -/

/-- `PgpKeyPair`. -/
structure PgpKeyPair where
  /-- `publicKeyArmored` -/
  publicKey : Text
  /-- `privateKeyArmored` -/
  privateKey : Text
  deriving DecidableEq

/-- `PgpContactKey`. -/
structure PgpContactKey where
  /-- `email` -/
  email : Text
  /-- `publicKeyArmored` -/
  publicKey : Text
  deriving DecidableEq

/-- What the composer finds around it while it sends. -/
structure PgpEnv where
  /-- `toLowerCase` -/
  lower : Text → Text
  /-- `activeAccount?.email` -/
  account : Option Text
  /-- `ensureKey` -/
  ownKey : Option PgpKeyPair
  /-- `isPrivateKeyEncrypted` -/
  keyEncrypted : Text → Bool
  /-- `getContactKeys` -/
  contactKeys : List PgpContactKey
  /-- `fetchPublicKeyFromKeyserver` -/
  keyserver : Text → Option Text
  /-- the error of `saveContactKey` -/
  saveErr : Text → Text → Option Text
  /-- the error of `encrypt` and `encryptBinary`, by what is encrypted, the keys, the signing
  key and the passphrase -/
  encryptErr : Text → List Text → Option Text → Text → Option Text

/-- A file with its name. -/
structure MailFile where
  name : Text
  data : Text
  deriving DecidableEq

/-- What the user has entered. -/
structure Draft where
  to_ : Text
  cc : Text
  bcc : Text
  subject : Text
  body : Text
  attachments : List MailFile
  /-- `enablePgpEncrypt` -/
  encrypt : Bool
  /-- `enablePgpSign` -/
  sign : Bool
  passphrase : Text

/-- A text or a file as it is sent. -/
inductive Content where
  | plain (data : Text)
  | encrypted (data : Text) (keys : List Text) (signer : Option Text)
  deriving DecidableEq

/-- What `sendMessage` gets. -/
structure Outgoing where
  to_ : List Text
  cc : List Text
  bcc : List Text
  subject : Text
  textBody : Content
  /-- empty in a message that is encrypted or signed -/
  htmlBody : Text
  attachments : List (Text × Content)
  deriving DecidableEq

/-- Why nothing is sent. -/
inductive SendErr where
  /-- `composer.needRecipient` -/
  | needRecipient
  /-- `composer.needPrivateKey` -/
  | needPrivateKey
  /-- the dialogue that asks for the passphrase -/
  | showSignPassModal
  /-- `composer.missingKeys` -/
  | missingKeys (emails : List Text)
  /-- `composer.someMissingKeys` -/
  | someMissingKeys (count : Nat)
  /-- `composer.pgpFailed` -/
  | pgpFailed (error : Text)
  /-- a rejected promise -/
  | thrown (error : Text)
  deriving DecidableEq

/-! ## Sending -/

/-- What JavaScript takes for true. -/
def truthy (s : Option Text) : Option Text := s.filter fun s => s ≠ []

variable (env : PgpEnv)

/-- The key that the address book has for a recipient. -/
def PgpEnv.contactKey (recipient : Text) : Option Text :=
  truthy ((env.contactKeys.find? fun c => env.lower c.email == env.lower recipient).map
    PgpContactKey.publicKey)

/-- The key for a recipient: of the address book or, to encrypt, from the key server, and
then it is saved. -/
def PgpEnv.recipientKey (encrypt : Bool) (recipient : Text) : Except SendErr (Option Text) :=
  match env.contactKey recipient with
  | some key => .ok (some key)
  | none =>
    if encrypt then
      match truthy (env.keyserver recipient) with
      | none => .ok none
      | some key =>
        match env.saveErr recipient key with
        | some e => .error (.thrown e)
        | none => .ok (some key)
    else .ok none

/-- The loop over the recipients: `recipientKeys`. -/
def PgpEnv.recipientKeys (encrypt : Bool) : List Text → Except SendErr (List Text)
  | [] => .ok []
  | recipient :: rest => do
    let foundKey ← env.recipientKey encrypt recipient
    let keys ← recipientKeys encrypt rest
    return foundKey.toList ++ keys

/-- `pgpService.encrypt` and `pgpService.encryptBinary`. -/
def PgpEnv.encrypt (data : Text) (keys : List Text) (signer : Option Text) (passphrase : Text) :
    Except SendErr Content :=
  match env.encryptErr data keys signer passphrase with
  | some e => .error (.pgpFailed e)
  | none => .ok (.encrypted data keys signer)

/-- The name of an encrypted file. -/
def pgpName (name : Text) : Text :=
  if ".pgp".toList.isSuffixOf name then name else name ++ ".pgp".toList

/-- The keys that are used: those of the recipients, or one's own if there is none. -/
def PgpEnv.keysUsed (recipientKeys : List Text) : List Text :=
  if recipientKeys.length > 0 then recipientKeys
  else (env.ownKey.map PgpKeyPair.publicKey).toList

/-- To encrypt, a key is needed for every To recipient. -/
def checkKeys (encrypt : Bool) (toList keys : List Text) : Except SendErr Unit :=
  if encrypt then
    if keys.length = 0 then .error (.missingKeys toList)
    else if keys.length < toList.length then .error (.someMissingKeys (toList.length - keys.length))
    else .ok ()
  else .ok ()

/-- The attachments as they are sent with PGP: a signature alone leaves them as they are. -/
def PgpEnv.protectFiles (d : Draft) (keys : List Text) (signer : Option Text) :
    Except SendErr (List (Text × Content)) :=
  if d.encrypt then
    d.attachments.mapM fun file => do
      let enc ← env.encrypt file.data keys signer d.passphrase
      return (pgpName file.name, enc)
  else .ok (d.attachments.map fun file => (file.name, .plain file.data))

/-- The key that a message is signed with. -/
def PgpEnv.signer (d : Draft) : Option Text :=
  if d.sign then env.ownKey.map PgpKeyPair.privateKey else none

/-- The body and the attachments as they are sent with PGP. -/
def PgpEnv.protect (d : Draft) (toList : List Text) :
    Except SendErr (Content × List (Text × Content)) := do
  let recipientKeys ← env.recipientKeys d.encrypt toList
  checkKeys d.encrypt toList recipientKeys
  let body ← env.encrypt d.body (env.keysUsed recipientKeys) (env.signer d) d.passphrase
  let files ← env.protectFiles d (env.keysUsed recipientKeys) (env.signer d)
  return (body, files)

/-- The HTML of a plain text. -/
def htmlOf (body : Text) : Text :=
  "<div>".toList ++ body.flatMap (fun c => if c = '\n' then "<br/>".toList else [c]) ++
    "</div>".toList

/-- `performSend`, up to what `sendMessage` gets. -/
def performSend (d : Draft) : Except SendErr Outgoing := do
  let toList := splitList (some d.to_)
  let ccList := splitList (some d.cc)
  let bccList := splitList (some d.bcc)
  if d.encrypt || d.sign then
    let (body, files) ← env.protect d toList
    return ⟨toList, ccList, bccList, d.subject, body, [], files⟩
  else
    return ⟨toList, ccList, bccList, d.subject, .plain d.body, htmlOf d.body,
      d.attachments.map fun file => (file.name, .plain file.data)⟩

/-- `handleSubmit`: to sign, one's own key is needed, and its passphrase. -/
def handleSubmit (d : Draft) : Except SendErr Outgoing := do
  if trim d.to_ = [] then .error .needRecipient
  if d.sign then
    match env.ownKey with
    | none => .error .needPrivateKey
    | some myKeyPair =>
      if env.keyEncrypted myKeyPair.privateKey && d.passphrase = [] then .error .showSignPassModal
  performSend env d

/-! ## Who can read it -/

/-- The key is one of the address: of the address book or a key server, or one's own. -/
def PgpEnv.KeyOf (recipient key : Text) : Prop :=
  (∃ c ∈ env.contactKeys, env.lower c.email = env.lower recipient ∧ c.publicKey = key) ∨
    env.keyserver recipient = some key ∨
    (∃ own, env.ownKey = some own ∧ own.publicKey = key ∧
      env.account.map env.lower = some (env.lower recipient))

/-- All recipients of a message. -/
def Outgoing.recipients (m : Outgoing) : List Text := m.to_ ++ m.cc ++ m.bcc

/-- The recipient has one of the keys that the content is encrypted to. -/
def PgpEnv.CanRead (recipient : Text) : Content → Prop
  | .plain _ => True
  | .encrypted _ keys _ => ∃ key ∈ keys, env.KeyOf recipient key

/-- If a message comes out, every recipient can read it, and what is to be encrypted is in no
other form. -/
structure Readable (d : Draft) (out : Except SendErr Outgoing) : Prop where
  /-- every recipient can read the body -/
  body : ∀ m, out = .ok m → ∀ r ∈ m.recipients, env.CanRead r m.textBody
  /-- to encrypt, the body and the attachments are encrypted, to the same keys -/
  encrypted : ∀ m, out = .ok m → d.encrypt = true → m.htmlBody = [] ∧
    ∃ keys signer, m.textBody = .encrypted d.body keys signer ∧
      ∀ file ∈ m.attachments, ∃ data, file.2 = .encrypted data keys signer

/-! ## What is sent -/

/-- The key that is found for a recipient. -/
def PgpEnv.foundKey (encrypt : Bool) (recipient : Text) : Option Text :=
  (env.contactKey recipient).or (if encrypt then truthy (env.keyserver recipient) else none)

/-- A key of the key server can be saved. -/
def PgpEnv.Saved (encrypt : Bool) (recipient : Text) : Prop :=
  encrypt = true → env.contactKey recipient = none →
    ∀ key, truthy (env.keyserver recipient) = some key → env.saveErr recipient key = none

/-- The keys that a message is encrypted to. -/
def PgpEnv.encryptionKeys (d : Draft) : List Text :=
  env.keysUsed ((splitList (some d.to_)).filterMap (env.foundKey d.encrypt))

/-- Nothing keeps the message from being sent. -/
structure PgpEnv.Sends (d : Draft) : Prop where
  saved : ∀ r ∈ splitList (some d.to_), env.Saved d.encrypt r
  /-- to encrypt, there is a recipient, and a key for each -/
  keys : d.encrypt = true → splitList (some d.to_) ≠ [] ∧
    ∀ r ∈ splitList (some d.to_), (env.foundKey true r).isSome
  body : env.encryptErr d.body (env.encryptionKeys d) (env.signer d) d.passphrase = none
  files : d.encrypt = true → ∀ file ∈ d.attachments,
    env.encryptErr file.data (env.encryptionKeys d) (env.signer d) d.passphrase = none

/-- A recipient is entered and, to sign, there is one's own key, with its passphrase if it has
one. -/
structure PgpEnv.Submits (d : Draft) : Prop where
  recipient : trim d.to_ ≠ []
  signer : d.sign = true → ∃ own, env.ownKey = some own ∧
    (env.keyEncrypted own.privateKey = true → d.passphrase ≠ [])

section Sent

variable {env}

theorem keyOf_foundKey {encrypt : Bool} {recipient key : Text}
    (h : env.foundKey encrypt recipient = some key) : env.KeyOf recipient key := by
  rw [PgpEnv.foundKey, Option.or_eq_some_iff] at h
  obtain h | ⟨-, h⟩ := h
  · rw [PgpEnv.contactKey, truthy, Option.filter_eq_some_iff] at h
    obtain ⟨c, hc, rfl⟩ := Option.map_eq_some_iff.mp h.1
    have hemail := List.find?_some (p := fun c : PgpContactKey => env.lower c.email == env.lower recipient) hc
    exact .inl ⟨c, List.mem_of_find?_eq_some hc, beq_iff_eq.mp hemail, rfl⟩
  · split at h
    · rw [truthy, Option.filter_eq_some_iff] at h
      exact .inr (.inl h.1)
    · cases h

theorem recipientKey_eq (encrypt : Bool) (recipient : Text) :
    (env.Saved encrypt recipient ∧
      env.recipientKey encrypt recipient = .ok (env.foundKey encrypt recipient)) ∨
    (¬env.Saved encrypt recipient ∧ ∃ e, env.recipientKey encrypt recipient = .error e) := by
  rw [PgpEnv.recipientKey, PgpEnv.foundKey]
  cases hcontact : env.contactKey recipient with
  | some key => exact .inl ⟨fun _ hnone => (by rw [hcontact] at hnone; cases hnone), rfl⟩
  | none =>
    cases encrypt with
    | false => exact .inl ⟨fun h => Bool.noConfusion h, rfl⟩
    | true =>
      cases hserver : truthy (env.keyserver recipient) with
      | none => exact .inl ⟨fun _ _ key hkey => (by rw [hserver] at hkey; cases hkey), rfl⟩
      | some key =>
        cases hsave : env.saveErr recipient key with
        | none =>
          refine .inl ⟨fun _ _ key' hkey' => ?_, by simp only [hsave]; rfl⟩
          rw [hserver] at hkey'
          rwa [← Option.some.inj hkey']
        | some e =>
          refine .inr ⟨fun h => ?_, .thrown e, by simp only [hsave]; rfl⟩
          have hnone := h rfl hcontact key hserver
          rw [hsave] at hnone
          cases hnone

/-- The loop over the recipients finds their keys, unless one cannot be saved. -/
theorem recipientKeys_eq (encrypt : Bool) (recipients : List Text) :
    ((∀ r ∈ recipients, env.Saved encrypt r) ∧ env.recipientKeys encrypt recipients =
      .ok (recipients.filterMap (env.foundKey encrypt))) ∨
    (¬(∀ r ∈ recipients, env.Saved encrypt r) ∧ ∃ e, env.recipientKeys encrypt recipients = .error e) := by
  induction recipients with
  | nil => exact .inl ⟨by simp, rfl⟩
  | cons r rest ih =>
    rw [PgpEnv.recipientKeys]
    obtain ⟨hsaved, hkey⟩ | ⟨hsaved, e, hkey⟩ := @recipientKey_eq env encrypt r
    · rw [hkey]
      obtain ⟨hall, hrest⟩ | ⟨hall, e, hrest⟩ := ih
      · refine .inl ⟨List.forall_mem_cons.mpr ⟨hsaved, hall⟩, ?_⟩
        rw [hrest, List.filterMap_cons]
        cases env.foundKey encrypt r <;> rfl
      · refine .inr ⟨fun h => hall (List.forall_mem_cons.mp h).2, e, ?_⟩
        rw [hrest]
        rfl
    · rw [hkey]
      exact .inr ⟨fun h => hsaved (List.forall_mem_cons.mp h).1, e, rfl⟩

theorem checkKeys_eq (encrypt : Bool) (recipients : List Text) :
    ((encrypt = true → recipients ≠ [] ∧ ∀ r ∈ recipients, (env.foundKey true r).isSome) ∧
      checkKeys encrypt recipients (recipients.filterMap (env.foundKey encrypt)) = .ok ()) ∨
    (¬(encrypt = true → recipients ≠ [] ∧ ∀ r ∈ recipients, (env.foundKey true r).isSome) ∧
      ∃ e, checkKeys encrypt recipients (recipients.filterMap (env.foundKey encrypt)) = .error e) := by
  rw [checkKeys]
  cases encrypt with
  | false => exact .inl ⟨fun h => Bool.noConfusion h, rfl⟩
  | true =>
    rw [if_pos rfl]
    have hlength := List.filterMap_length_eq_length (f := env.foundKey true) (l := recipients)
    have hle := List.length_filterMap_le (env.foundKey true) recipients
    by_cases hall : ∀ r ∈ recipients, (env.foundKey true r).isSome
    · have heq := hlength.mpr hall
      by_cases hne : recipients = []
      · subst hne
        exact .inr ⟨fun h => (h rfl).1 rfl, _, rfl⟩
      · have hpos := List.length_pos_iff.mpr hne
        refine .inl ⟨fun _ => ⟨hne, hall⟩, ?_⟩
        rw [if_neg (by omega), if_neg (by omega)]
    · refine .inr ⟨fun h => hall (h rfl).2, ?_⟩
      have hlt := Nat.lt_of_le_of_ne hle (mt hlength.mp hall)
      rw [if_pos hlt]
      split
      · exact ⟨_, rfl⟩
      · exact ⟨_, rfl⟩

theorem encrypt_eq (data : Text) (keys : List Text) (signer : Option Text) (passphrase : Text) :
    (env.encryptErr data keys signer passphrase = none ∧
      env.encrypt data keys signer passphrase = .ok (.encrypted data keys signer)) ∨
    (¬env.encryptErr data keys signer passphrase = none ∧
      ∃ e, env.encrypt data keys signer passphrase = .error e) := by
  rw [PgpEnv.encrypt]
  cases env.encryptErr data keys signer passphrase with
  | none => exact .inl ⟨rfl, rfl⟩
  | some e => exact .inr ⟨Option.some_ne_none e, _, rfl⟩

/-- The files as they are sent with PGP. -/
def Draft.sentFiles (d : Draft) (keys : List Text) (signer : Option Text) :
    List (Text × Content) :=
  if d.encrypt then
    d.attachments.map fun file => (pgpName file.name, .encrypted file.data keys signer)
  else d.attachments.map fun file => (file.name, .plain file.data)

/-- The files are encrypted one after the other. -/
theorem protectFiles_eq (d : Draft) (keys : List Text) (signer : Option Text) :
    ((d.encrypt = true → ∀ file ∈ d.attachments,
        env.encryptErr file.data keys signer d.passphrase = none) ∧
      env.protectFiles d keys signer = .ok (d.sentFiles keys signer)) ∨
    (¬(d.encrypt = true → ∀ file ∈ d.attachments,
        env.encryptErr file.data keys signer d.passphrase = none) ∧
      ∃ e, env.protectFiles d keys signer = .error e) := by
  rw [PgpEnv.protectFiles, Draft.sentFiles]
  cases d.encrypt with
  | false => exact .inl ⟨fun h => Bool.noConfusion h, rfl⟩
  | true =>
    rw [if_pos rfl, if_pos rfl]
    simp only [true_implies]
    generalize d.attachments = files
    induction files with
    | nil => exact .inl ⟨by simp, rfl⟩
    | cons file files ih =>
      rw [List.mapM_cons, List.forall_mem_cons, List.map_cons]
      obtain ⟨hfile, hok⟩ | ⟨hfile, e, herr⟩ := @encrypt_eq env file.data keys signer d.passphrase
      · rw [hok]
        obtain ⟨hall, hrest⟩ | ⟨hall, e, hrest⟩ := ih
        · exact .inl ⟨⟨hfile, hall⟩, by rw [hrest]; rfl⟩
        · exact .inr ⟨fun h => hall h.2, e, by rw [hrest]; rfl⟩
      · exact .inr ⟨fun h => hfile h.1, e, by rw [herr]; rfl⟩

/-- **What PGP does** to a message: it is encrypted to the keys found for the To recipients,
or nothing is sent. -/
theorem protect_eq (d : Draft) :
    (env.Sends d ∧ env.protect d (splitList (some d.to_)) =
      .ok (.encrypted d.body (env.encryptionKeys d) (env.signer d),
        d.sentFiles (env.encryptionKeys d) (env.signer d))) ∨
    (¬env.Sends d ∧ ∃ e, env.protect d (splitList (some d.to_)) = .error e) := by
  rw [PgpEnv.protect]
  obtain ⟨hsaved, hfound⟩ | ⟨hsaved, e, hfound⟩ :=
    @recipientKeys_eq env d.encrypt (splitList (some d.to_))
  · rw [hfound]
    obtain ⟨hkeys, hcheck⟩ | ⟨hkeys, e, hcheck⟩ :=
      @checkKeys_eq env d.encrypt (splitList (some d.to_))
    · obtain ⟨hbody, hencrypt⟩ | ⟨hbody, e, hencrypt⟩ :=
        @encrypt_eq env d.body (env.encryptionKeys d) (env.signer d) d.passphrase
      · obtain ⟨hfiles, hprotect⟩ | ⟨hfiles, e, hprotect⟩ :=
          @protectFiles_eq env d (env.encryptionKeys d) (env.signer d)
        · refine .inl ⟨⟨hsaved, hkeys, hbody, hfiles⟩, ?_⟩
          show (checkKeys _ _ _ >>= fun _ => env.encrypt _ (env.encryptionKeys d) _ _ >>= fun body =>
            env.protectFiles _ (env.encryptionKeys d) _ >>= fun files => pure (body, files)) = _
          rw [hcheck, hencrypt, hprotect]
          rfl
        · refine .inr ⟨fun h => hfiles h.files, e, ?_⟩
          show (checkKeys _ _ _ >>= fun _ => env.encrypt _ (env.encryptionKeys d) _ _ >>= fun body =>
            env.protectFiles _ (env.encryptionKeys d) _ >>= fun files => pure (body, files)) = _
          rw [hcheck, hencrypt, hprotect]
          rfl
      · refine .inr ⟨fun h => hbody h.body, e, ?_⟩
        show (checkKeys _ _ _ >>= fun _ => env.encrypt _ (env.encryptionKeys d) _ _ >>= _) = _
        rw [hcheck, hencrypt]
        rfl
    · refine .inr ⟨fun h => hkeys h.keys, e, ?_⟩
      show (checkKeys _ _ _ >>= _) = _
      rw [hcheck]
      rfl
  · rw [hfound]
    exact .inr ⟨fun h => hsaved h.saved, e, rfl⟩

/-- **What is sent**: with PGP it is encrypted, to the keys found for the To recipients. -/
theorem performSend_ok {d : Draft} {m : Outgoing} (h : performSend env d = .ok m) :
    m.to_ = splitList (some d.to_) ∧ m.recipients =
      splitList (some d.to_) ++ splitList (some d.cc) ++ splitList (some d.bcc) ∧
    if d.encrypt || d.sign then
      env.Sends d ∧ m.textBody = .encrypted d.body (env.encryptionKeys d) (env.signer d) ∧
        m.htmlBody = [] ∧ m.attachments = d.sentFiles (env.encryptionKeys d) (env.signer d)
    else m.textBody = .plain d.body := by
  rw [performSend] at h
  cases hpgp : d.encrypt || d.sign with
  | false =>
    simp only [hpgp] at h
    cases h
    exact ⟨rfl, rfl, rfl⟩
  | true =>
    simp only [hpgp] at h
    obtain ⟨hsends, hprotect⟩ | ⟨-, e, hprotect⟩ := @protect_eq env d
    · rw [hprotect] at h
      cases h
      exact ⟨rfl, rfl, hsends, rfl, rfl, rfl⟩
    · rw [hprotect] at h
      cases h

theorem performSend_of_sends {d : Draft} (hpgp : (d.encrypt || d.sign) = true)
    (h : env.Sends d) : ∃ m, performSend env d = .ok m := by
  obtain ⟨-, hprotect⟩ | ⟨hsends, -⟩ := @protect_eq env d
  · rw [performSend]
    simp only [hpgp]
    rw [hprotect]
    exact ⟨_, rfl⟩
  · exact absurd h hsends

/-- A submit goes on to the send, or nothing is sent. -/
theorem handleSubmit_eq (d : Draft) :
    (env.Submits d ∧ handleSubmit env d = performSend env d) ∨
    (¬env.Submits d ∧ ∃ e, handleSubmit env d = .error e) := by
  rw [handleSubmit]
  by_cases hto : trim d.to_ = []
  · rw [if_pos hto]
    exact .inr ⟨fun h => h.recipient hto, _, rfl⟩
  rw [if_neg hto]
  cases hsign : d.sign with
  | false => exact .inl ⟨⟨hto, fun h => (by rw [hsign] at h; cases h)⟩, rfl⟩
  | true =>
    rw [if_pos rfl]
    cases hown : env.ownKey with
    | none =>
      refine .inr ⟨fun h => ?_, _, rfl⟩
      obtain ⟨own, hsome, -⟩ := h.signer hsign
      rw [hown] at hsome
      cases hsome
    | some own =>
      by_cases hpass : (env.keyEncrypted own.privateKey && d.passphrase = []) = true
      · simp only [if_pos hpass]
        refine .inr ⟨fun h => ?_, _, rfl⟩
        obtain ⟨own', hsome, hneeds⟩ := h.signer hsign
        rw [hown] at hsome
        obtain rfl := Option.some.inj hsome
        rw [Bool.and_eq_true, decide_eq_true_eq] at hpass
        exact hneeds hpass.1 hpass.2
      · refine .inl ⟨⟨hto, fun _ => ⟨own, hown, fun hkey hnil => hpass ?_⟩⟩, ?_⟩
        · rw [hkey, hnil]
          rfl
        · simp only [if_neg hpass]

end Sent

/-- The recipients for whom no key is looked up have one that is used all the same; for a
signature alone those are all, as the keys used are at most those of the address book. -/
def PgpEnv.Covers (d : Draft) : Prop :=
  (d.encrypt || d.sign) = true → env.Sends d →
    ∀ r ∈ (if d.encrypt then [] else splitList (some d.to_)) ++ splitList (some d.cc) ++
      splitList (some d.bcc), ∃ key ∈ env.encryptionKeys d, env.KeyOf r key

/-- To encrypt, the keys used are those of the To recipients. -/
theorem mem_encryptionKeys {env : PgpEnv} {d : Draft} (hencrypt : d.encrypt = true)
    (hsends : env.Sends d) {r : Text} (hr : r ∈ splitList (some d.to_)) :
    ∃ key ∈ env.encryptionKeys d, env.KeyOf r key := by
  obtain ⟨-, hkeys⟩ := hsends.keys hencrypt
  obtain ⟨key, hkey⟩ := Option.isSome_iff_exists.mp (hkeys r hr)
  have hmem : key ∈ (splitList (some d.to_)).filterMap (env.foundKey d.encrypt) := by
    rw [hencrypt]
    exact List.mem_filterMap.mpr ⟨r, hr, hkey⟩
  refine ⟨key, ?_, keyOf_foundKey hkey⟩
  rw [PgpEnv.encryptionKeys, PgpEnv.keysUsed, if_pos (List.length_pos_of_mem hmem)]
  exact hmem

/-- What a send comes to is readable just if the keys used cover the recipients. -/
theorem readable_performSend {env : PgpEnv} {d : Draft} :
    Readable env d (performSend env d) ↔ env.Covers d := by
  constructor
  · intro h hpgp hsends r hr
    obtain ⟨m, hm⟩ := performSend_of_sends hpgp hsends
    obtain ⟨-, hrecipients, hsent⟩ := performSend_ok hm
    rw [if_pos hpgp] at hsent
    have hmem : r ∈ m.recipients := by
      rw [hrecipients]
      rcases List.mem_append.mp hr with hr | hr
      · rcases List.mem_append.mp hr with hr | hr
        · split at hr
          · cases hr
          · exact List.mem_append_left _ (List.mem_append_left _ hr)
        · exact List.mem_append_left _ (List.mem_append_right _ hr)
      · exact List.mem_append_right _ hr
    have hread := h.body m hm r hmem
    rwa [hsent.2.1] at hread
  · intro h
    refine ⟨fun m hm r hr => ?_, fun m hm hencrypt => ?_⟩
    · obtain ⟨-, hrecipients, hsent⟩ := performSend_ok hm
      cases hpgp : d.encrypt || d.sign with
      | false =>
        rw [hpgp, if_neg Bool.false_ne_true] at hsent
        rw [hsent]
        trivial
      | true =>
        rw [if_pos hpgp] at hsent
        rw [hsent.2.1]
        rw [hrecipients, List.append_assoc] at hr
        rcases List.mem_append.mp hr with hto | hother
        · cases hencrypt : d.encrypt with
          | true => exact mem_encryptionKeys hencrypt hsent.1 hto
          | false =>
            refine h hpgp hsent.1 r (List.mem_append_left _ (List.mem_append_left _ ?_))
            rw [hencrypt]
            exact hto
        · refine h hpgp hsent.1 r ?_
          rw [List.append_assoc]
          exact List.mem_append_right _ hother
    · obtain ⟨-, -, hsent⟩ := performSend_ok hm
      rw [hencrypt, Bool.true_or, if_pos rfl] at hsent
      obtain ⟨-, hbody, hhtml, hfiles⟩ := hsent
      refine ⟨hhtml, _, _, hbody, fun file hfile => ?_⟩
      rw [hfiles, Draft.sentFiles, hencrypt, if_pos rfl] at hfile
      obtain ⟨f, -, rfl⟩ := List.mem_map.mp hfile
      exact ⟨f.data, rfl⟩

/-- **Every recipient can read** what is sent just if those for whom no key is looked up
happen to have one of the keys used: what the dialogue for the passphrase sends, and what a
submit sends that gets as far. -/
theorem readable_iff (env : PgpEnv) (d : Draft) :
    (Readable env d (performSend env d) ↔ env.Covers d) ∧
    (Readable env d (handleSubmit env d) ↔ (env.Submits d → env.Covers d)) := by
  refine ⟨readable_performSend, ?_⟩
  obtain ⟨hsubmits, hsend⟩ | ⟨hsubmits, e, hsend⟩ := @handleSubmit_eq env d
  · rw [hsend, readable_performSend]
    exact ⟨fun h _ => h, fun h => h hsubmits⟩
  · rw [hsend]
    exact ⟨fun _ h => absurd h hsubmits, fun _ => ⟨fun _ hm => (by cases hm), fun _ hm => (by cases hm)⟩⟩

/-- An address book with the keys of three people, of whom one sends. -/
def addressBook : PgpEnv where
  lower := id
  account := some "me@x".toList
  ownKey := some ⟨"me".toList, "my secret".toList⟩
  contactKeys := [⟨"alice@x".toList, "alice".toList⟩, ⟨"bob@x".toList, "bob".toList⟩]
  keyEncrypted _ := false
  keyserver _ := none
  saveErr _ _ := none
  encryptErr _ _ _ _ := none

/-- A message to one of them, with a copy to the other. -/
def withCopy : Draft :=
  ⟨"alice@x".toList, "bob@x".toList, [], [], "hello".toList, [], true, false, []⟩

/-- **A copy cannot be read**: the key of a Cc recipient is not looked up, though it is in
the address book. -/
theorem withCopy_not_readable :
    ¬∀ (env : PgpEnv) (d : Draft), Readable env d (handleSubmit env d) := by
  intro h
  have hread := (h addressBook withCopy).body
    ⟨["alice@x".toList], ["bob@x".toList], [], [], .encrypted "hello".toList ["alice".toList] none,
      [], []⟩ (by decide +kernel) "bob@x".toList (by decide)
  obtain ⟨key, hkey, hof⟩ := hread
  obtain rfl := List.mem_singleton.mp hkey
  obtain ⟨c, hc, hemail, hpublic⟩ | hserver | ⟨own, hown, hpublic, -⟩ := hof
  · have hnone : ∀ c ∈ addressBook.contactKeys, c.email = "bob@x".toList →
        c.publicKey ≠ "alice".toList := by decide
    exact hnone c hc hemail hpublic
  · cases hserver
  · obtain rfl := Option.some.inj hown
    exact absurd hpublic (by decide)

end E2Mail.Frontend
