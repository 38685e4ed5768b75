import E2Mail.Frontend.MimeText

/-!
# Encrypting and decrypting a mail text

`pgpService.encrypt` gives a text to OpenPGP. `pgpService.decrypt` gives the armored block to
OpenPGP, and then looks at the text that comes back: it cleans it of armor lines, takes the text
out of a MIME message, and decrypts what is encrypted twice.

* `OpenPgp` — what the client calls; `Ideal`, that it gives back what it was given.
* `encrypt`, `decrypt` — the functions of the client.
* `Untouched` — a text that nothing of this happens to.
* `decrypt_encrypt` — such a text is decrypted to itself.
-/

namespace E2Mail.Frontend.Pgp

open Lib Lib.Regex

/-- The functions of openpgp.js; `none` is an exception. -/
structure OpenPgp where
  Key : Type
  PrivateKey : Type
  Message : Type
  Signature : Type
  readKey : JSText → Option Key
  readPrivateKey : JSText → Option PrivateKey
  isDecrypted : PrivateKey → Bool
  decryptKey : PrivateKey → JSText → Option PrivateKey
  /-- the number is the randomness of the call -/
  encrypt : Nat → JSText → List Key → Option PrivateKey → Option JSText
  readMessage : JSText → Option Message
  /-- the text and its signatures, checked with these keys -/
  decrypt : Message → PrivateKey → Option (List Key) → Option (JSText × List Signature)
  verified : Signature → Option Bool
  /-- `.keyID.toHex()` -/
  keyID : Signature → JSText

inductive PgpError where
  /-- an exception of openpgp.js -/
  | openpgp
  | badPassphraseSign
  | badPassphraseDecrypt
  deriving DecidableEq

structure KeyPair where
  publicKeyArmored : JSText
  privateKeyArmored : JSText

/-- What the server answers; `none` is a failure. -/
structure Answers where
  /-- `/pgp/contacts`, the armored keys -/
  contacts : Option (List JSText)
  /-- `/pgp/keyring` -/
  keyring : Option (Option KeyPair)

/-- `fetchKeyringFromCloud`. -/
def Answers.fetchKeyringFromCloud (s : Answers) : Option KeyPair :=
  (s.keyring.getD none).filter fun k => k.privateKeyArmored ≠ []

/-- `ensureKey`. -/
def Answers.ensureKey (s : Answers) (memoryKeyPair : Option KeyPair) : Option KeyPair :=
  memoryKeyPair.or s.fetchKeyringFromCloud

/-- `getContactKeys`. -/
def Answers.getContactKeys (s : Answers) : List JSText := s.contacts.getD []

structure EncryptArgs where
  text : JSText
  recipientPublicKeysArmored : List JSText
  signerPrivateKeyArmored : Option JSText
  passphrase : Option JSText

structure DecryptArgs where
  armoredMessage : JSText
  privateKeyArmored : JSText
  passphrase : Option JSText
  senderPublicKeyArmored : Option JSText

structure Decrypted where
  data : JSText
  verified : Bool
  signatureKeyId : Option JSText
  deriving DecidableEq

/-! ## The text that comes back -/

def firstLine : JSText := js "-----BEGIN PGP MESSAGE-----"

def lastLine : JSText := js "-----END PGP MESSAGE-----"

/-- The block of an armored message, or all of it when it has none. -/
def targetArmored (armoredMessage : JSText) : JSText :=
  match (block lower firstLine lastLine).find armoredMessage with
  | some (_, m) => m.text
  | none => armoredMessage

/-- `(?:UNVERIFIED |SIGNED )?MESSAGE-----`. -/
def markerEnd : RegExp :=
  seq (opt (alt (text "UNVERIFIED ") (text "SIGNED "))) (text "MESSAGE-----")

/-- `^-----BEGIN PGP (?:UNVERIFIED |SIGNED )?MESSAGE-----\r?\n?`. -/
def beginMarker : RegExp :=
  sequence [atStart, text "-----BEGIN PGP ", markerEnd, opt (oneOf "\r"), opt (oneOf "\n")]

/-- `\r?\n?-----END PGP (?:UNVERIFIED |SIGNED )?MESSAGE-----[\s\S]*$`. -/
def endMarker : RegExp :=
  sequence [opt (oneOf "\r"), opt (oneOf "\n"), text "-----END PGP ", markerEnd, anything true,
    atEnd]

/-- The text without the armor lines that OpenPGP may have left. -/
def cleanMarkers (decrypted : JSText) : JSText :=
  trim (endMarker.replace (fun _ => []) (beginMarker.replace (fun _ => []) decrypted))

/-- A text that has the header of a multipart on a line, and a boundary. -/
def looksMultipart (s : JSText) : Bool :=
  (seq atLine multipartType).test s && (text "boundary=").test s

/-- A text that has the header of a text in base64 on a line. -/
def looksBase64 (s : JSText) : Bool :=
  (sequence [atLine, text "Content-Type:", white, text "text/"]).test s &&
    (sequence [text "Content-Transfer-Encoding:", white, text "base64"]).test s

/-- What comes after the first blank line, decoded. -/
def decodedPart (s : JSText) : Option JSText :=
  (blankLine.find s).bind fun (header, _) =>
    (atob (removeWhite (trim (s.drop header.length)))).map decodeUtf8

/-- The text of a part in base64, when it has more than ten code units. -/
def base64Text (s : JSText) : Option JSText :=
  (decodedPart s).filter fun decoded => 10 < decoded.length

/-- The text of a MIME message, when it has one. -/
def mimeText (U : Unicode) (s : JSText) : Option JSText :=
  (extractTextFromMime U s).filter (· ≠ [])

/-- The text that a cleaned text stands for. -/
def plainText (U : Unicode) (s : JSText) : JSText :=
  if looksMultipart s then (mimeText U s).getD s
  else if looksBase64 s then (base64Text s).getD s
  else s

def isPgpEncrypted (content : JSText) : Bool := (text "-----BEGIN PGP MESSAGE-----").test content

/-- `.toUpperCase()` of hexadecimal digits. -/
def upperHex (s : JSText) : JSText := s.map fun c => if 97 ≤ c && c ≤ 122 then c - 32 else c

/-! ## The functions -/

section

variable (P : OpenPgp)

/-- A private key, decrypted with the passphrase if it has to be. -/
def OpenPgp.unlock (armoredKey : JSText) (passphrase : Option JSText) (bad : PgpError) :
    Except PgpError P.PrivateKey :=
  match P.readPrivateKey armoredKey with
  | none => .error .openpgp
  | some privateKey =>
    if P.isDecrypted privateKey then .ok privateKey
    else
      match P.decryptKey privateKey (passphrase.getD []) with
      | none => .error bad
      | some privateKey => .ok privateKey

/-- The key that signs, if there is to be one. -/
def OpenPgp.signingKeys (a : EncryptArgs) : Except PgpError (Option P.PrivateKey) :=
  match a.signerPrivateKeyArmored.filter (· ≠ []) with
  | none => .ok none
  | some armoredKey => (P.unlock armoredKey a.passphrase .badPassphraseSign).map some

def encrypt (seed : Nat) (a : EncryptArgs) : Except PgpError JSText :=
  match a.recipientPublicKeysArmored.mapM P.readKey with
  | none => .error .openpgp
  | some encryptionKeys =>
    match P.signingKeys a with
    | .error e => .error e
    | .ok signingKeys =>
      match P.encrypt seed a.text encryptionKeys signingKeys with
      | none => .error .openpgp
      | some encrypted => .ok encrypted

/-- The keys that signatures are checked with. -/
def OpenPgp.verificationKeys (a : DecryptArgs) (contacts : List JSText) (myKey : Option KeyPair) :
    List P.Key :=
  (a.senderPublicKeyArmored.filter (· ≠ [])).toList.filterMap P.readKey ++
    contacts.filterMap P.readKey ++
    ((myKey.map KeyPair.publicKeyArmored).filter (· ≠ [])).toList.filterMap P.readKey

/-- The loop over the signatures, which ends at the first that is verified. -/
def OpenPgp.checkSignatures : List P.Signature → Bool × Option JSText
  | [] => (false, none)
  | sig :: sigs =>
    if P.verified sig = some true then (true, some (upperHex (P.keyID sig)))
    else checkSignatures sigs

/-- The call of openpgp.js in `decrypt`. -/
def OpenPgp.open_ (privateKey : P.PrivateKey) (keys : List P.Key) (armoredMessage : JSText) :
    Option (JSText × List P.Signature) :=
  (P.readMessage (targetArmored armoredMessage)).bind fun message =>
    P.decrypt message privateKey (if keys.isEmpty then none else some keys)

variable (U : Unicode)

/-- `decrypt`. The number bounds how often a message is encrypted; `answers` are those of the
server to each call. -/
def decrypt : Nat → (Nat → Answers) → Option KeyPair → DecryptArgs →
    Option (Except PgpError Decrypted)
  | 0, _, _, _ => none
  | n + 1, answers, memoryKeyPair, a =>
    match P.unlock a.privateKeyArmored a.passphrase .badPassphraseDecrypt with
    | .error e => some (.error e)
    | .ok privateKey =>
      let myKey := (answers 0).ensureKey memoryKeyPair
      let keys := P.verificationKeys a (answers 0).getContactKeys myKey
      match P.open_ privateKey keys a.armoredMessage with
      | none => some (.error .openpgp)
      | some (decrypted, signatures) =>
        let (verified, signatureKeyId) := P.checkSignatures signatures
        let cleanText := plainText U (cleanMarkers decrypted)
        if isPgpEncrypted cleanText then
          match decrypt n (fun i => answers (i + 1)) myKey { a with armoredMessage := cleanText } with
          | none => none
          | some (.ok nested) => some (.ok nested)
          | some (.error _) => some (.ok ⟨cleanText, verified, signatureKeyId⟩)
        else some (.ok ⟨cleanText, verified, signatureKeyId⟩)

/-! ## The round trip -/

/-- OpenPGP gives back what it was given: it makes an armored block, and a key that the text was
encrypted for opens it. -/
def OpenPgp.Ideal (Pair : P.Key → P.PrivateKey → Prop) : Prop :=
  ∀ seed t keys signer a, P.encrypt seed t keys signer = some a →
    ∃ body tail, a = firstLine ++ (body ++ (lastLine ++ tail)) ∧ body ≠ [] ∧ unit '-' ∉ body ∧
      ∃ m, P.readMessage (firstLine ++ (body ++ lastLine)) = some m ∧
        ∀ key ∈ keys, ∀ privateKey, Pair key privateKey → ∀ verificationKeys,
          ∃ signatures, P.decrypt m privateKey verificationKeys = some (t, signatures)

/-- A text that has no armor lines to clean, is not read as a MIME message, and has no block in it
that the key opens. -/
structure Untouched (privateKey : P.PrivateKey) (t : JSText) : Prop where
  noBegin : beginMarker.test t = false
  noEnd : endMarker.test t = false
  noMime : looksMultipart t = true → mimeText U t = none
  noBase64 : looksMultipart t = false → looksBase64 t = true → base64Text t = none
  noNested : isPgpEncrypted t = true → ∀ keys, P.open_ privateKey keys t = none

/-- Whatever `encrypt` makes of a text, `decrypt` gives the text back to a key among those it was
encrypted for. -/
def Returns (Pair : P.Key → P.PrivateKey → Prop) (privateKey : P.PrivateKey) (t : JSText) : Prop :=
  ∀ seed recipients signer passphrase a,
    encrypt P seed ⟨t, recipients, signer, passphrase⟩ = .ok a →
    (∃ r ∈ recipients, ∃ key, P.readKey r = some key ∧ Pair key privateKey) →
    ∀ d : DecryptArgs, d.armoredMessage = a →
      P.unlock d.privateKeyArmored d.passphrase .badPassphraseDecrypt = .ok privateKey →
      ∀ n answers memoryKeyPair, ∃ verified signatureKeyId,
        decrypt P U (n + 2) answers memoryKeyPair d = some (.ok ⟨t, verified, signatureKeyId⟩)

end

theorem lower_ne_dash {c : UInt16} (h : c ≠ unit '-') : lower c ≠ lower (unit '-') := by
  have hdash : unit '-' = 45 := rfl
  have hlower : lower 45 = 45 := rfl
  rw [hdash] at h ⊢
  rw [hlower, lower]
  split
  next hc =>
    rw [Bool.and_eq_true, decide_eq_true_eq, decide_eq_true_eq, UInt16.le_iff_toNat_le,
      UInt16.le_iff_toNat_le] at hc
    rw [Ne, ← UInt16.toNat_inj, UInt16.toNat_add]
    simp at hc ⊢
    omega
  next => exact h

theorem targetArmored_block {body : JSText} (hne : body ≠ []) (hdash : unit '-' ∉ body)
    (tail : JSText) :
    targetArmored (firstLine ++ (body ++ (lastLine ++ tail))) = firstLine ++ (body ++ lastLine) := by
  have hbody : ∀ c ∈ body, lower c ≠ lower (unit '-') := fun c hc =>
    lower_ne_dash fun h => hdash (h ▸ hc)
  have hfind : (block lower firstLine lastLine).find (firstLine ++ (body ++ (lastLine ++ tail))) =
      some ([], ⟨[], firstLine ++ (body ++ lastLine), tail, []⟩) := find_block rfl rfl hne hbody tail
  rw [targetArmored, hfind]

theorem cleanMarkers_eq {t : JSText} (htrim : trim t = t) (hbegin : beginMarker.test t = false)
    (hend : endMarker.test t = false) : cleanMarkers t = t := by
  rw [cleanMarkers, replace_of_not_test hbegin, replace_of_not_test hend, htrim]

theorem mem_of_mapM {f : JSText → Option α} {s : List JSText} {l : List α} {r : JSText} {x : α}
    (h : s.mapM f = some l) (hr : r ∈ s) (hx : f r = some x) : x ∈ l := by
  induction s generalizing l with
  | nil => cases hr
  | cons r' s ih =>
    simp only [List.mapM_cons, Option.bind_eq_bind, Option.bind_eq_some_iff, Option.pure_def,
      Option.some.injEq] at h
    obtain ⟨x', hx', l', hl', rfl⟩ := h
    rcases List.mem_cons.1 hr with rfl | hr
    · rw [hx] at hx'
      cases hx'
      exact List.mem_cons_self
    · exact List.mem_cons_of_mem _ (ih hl' hr)

variable {P : OpenPgp} {U : Unicode} {Pair : P.Key → P.PrivateKey → Prop}
  {privateKey : P.PrivateKey} {t : JSText}

theorem Untouched.plainText_eq (h : Untouched P U privateKey t) : plainText U t = t := by
  rw [plainText]
  split
  next hmime => rw [h.noMime hmime, Option.getD_none]
  next hmime =>
    split
    next hbase64 => rw [h.noBase64 (Bool.eq_false_iff.2 hmime) hbase64, Option.getD_none]
    next => rfl

theorem encrypt_ok {seed : Nat} {e : EncryptArgs} {a : JSText} (h : encrypt P seed e = .ok a) :
    ∃ keys signer, e.recipientPublicKeysArmored.mapM P.readKey = some keys ∧
      P.encrypt seed e.text keys signer = some a := by
  rw [encrypt] at h
  split at h
  · cases h
  next keys hkeys =>
    split at h
    · cases h
    next signer hsigner =>
      split at h
      · cases h
      next a' ha =>
        cases h
        exact ⟨keys, signer, hkeys, ha⟩

/-- What was encrypted for a key is opened with it. -/
theorem open_encrypted (hideal : P.Ideal Pair) {seed : Nat} {e : EncryptArgs} {a : JSText}
    (henc : encrypt P seed e = .ok a)
    (hkey : ∃ r ∈ e.recipientPublicKeysArmored, ∃ key, P.readKey r = some key ∧ Pair key privateKey)
    (keys : List P.Key) : ∃ signatures, P.open_ privateKey keys a = some (e.text, signatures) := by
  obtain ⟨encryptionKeys, signer, hread, ha⟩ := encrypt_ok henc
  obtain ⟨r, hr, key, hkey, hpair⟩ := hkey
  obtain ⟨body, tail, rfl, hne, hdash, m, hm, hdec⟩ := hideal _ _ _ _ _ ha
  obtain ⟨signatures, hsig⟩ := hdec key (mem_of_mapM hread hr hkey) privateKey hpair
    (if keys.isEmpty then none else some keys)
  refine ⟨signatures, ?_⟩
  rw [OpenPgp.open_, targetArmored_block hne hdash, hm, Option.bind_some, hsig]

/-- A message that the key does not open. -/
theorem decrypt_not_open {d : DecryptArgs}
    (hunlock : P.unlock d.privateKeyArmored d.passphrase .badPassphraseDecrypt = .ok privateKey)
    (hopen : ∀ keys, P.open_ privateKey keys d.armoredMessage = none) (n : Nat)
    (answers : Nat → Answers) (memoryKeyPair : Option KeyPair) :
    decrypt P U (n + 1) answers memoryKeyPair d = some (.error .openpgp) := by
  simp only [decrypt, hunlock, hopen]

/-- **Decrypting what was encrypted.** -/
theorem decrypt_encrypt (hideal : P.Ideal Pair) (htrim : trim t = t)
    (h : Untouched P U privateKey t) : Returns P U Pair privateKey t := by
  intro seed recipients signer passphrase a henc hkey d hd hunlock n answers memoryKeyPair
  obtain ⟨signatures, hopen⟩ := open_encrypted hideal henc hkey
    (P.verificationKeys d (answers 0).getContactKeys ((answers 0).ensureKey memoryKeyPair))
  have hclean : plainText U (cleanMarkers t) = t := by
    rw [cleanMarkers_eq htrim h.noBegin h.noEnd, h.plainText_eq]
  rw [← hd] at hopen
  refine ⟨(P.checkSignatures signatures).1, (P.checkSignatures signatures).2, ?_⟩
  rw [decrypt]
  simp only [hunlock, hopen, hclean]
  split
  next hnested =>
    -- the block inside it is tried, and the text stays as it is
    have hfail : ∀ answers memoryKeyPair, decrypt P U (n + 1) answers memoryKeyPair
        { d with armoredMessage := t } = some (.error .openpgp) :=
      decrypt_not_open (d := { d with armoredMessage := t }) hunlock (h.noNested hnested) n
    rw [hfail]
  next => rfl

/-! ## Texts that do not come back -/

/-- Four letters for a code unit. -/
def spell (c : UInt16) : JSText :=
  [c.toNat / 4096, c.toNat / 256 % 16, c.toNat / 16 % 16, c.toNat % 16].map fun n =>
    UInt16.ofNat (65 + n)

def unspell : JSText → JSText
  | a :: b :: c :: d :: s =>
    UInt16.ofNat ((a.toNat - 65) * 4096 + (b.toNat - 65) * 256 + (c.toNat - 65) * 16 +
      (d.toNat - 65)) :: unspell s
  | _ => []

/-- An OpenPGP that armors a text without hiding it. -/
def spelled : OpenPgp where
  Key := Unit
  PrivateKey := Unit
  Message := JSText
  Signature := Unit
  readKey _ := some ()
  readPrivateKey _ := some ()
  isDecrypted _ := true
  decryptKey _ _ := some ()
  encrypt _ t _ _ := some (firstLine ++ (js "\n\n" ++ t.flatMap spell ++ (lastLine ++ js "\n")))
  readMessage a :=
    if (firstLine ++ js "\n\n").isPrefixOf a && lastLine.isSuffixOf a then
      some (unspell ((a.drop (firstLine.length + 2)).rdrop lastLine.length))
    else none
  decrypt m _ _ := some (m, [])
  verified _ := none
  keyID _ := []

theorem toNat_letter {n : Nat} (h : n < 16) : (UInt16.ofNat (65 + n)).toNat = 65 + n :=
  UInt16.toNat_ofNat_of_lt' (by simp only [UInt16.size]; omega)

theorem unspell_spell (t : JSText) : unspell (t.flatMap spell) = t := by
  induction t with
  | nil => rfl
  | cons c t ih =>
    have hlt := c.toNat_lt
    have hletter : ∀ n, n < 16 → (UInt16.ofNat (65 + n)).toNat - 65 = n := by
      intro n hn
      rw [toNat_letter hn, Nat.add_sub_cancel_left]
    rw [List.flatMap_cons, spell, List.map_cons, List.map_cons, List.map_cons, List.map_cons,
      List.map_nil]
    simp only [List.cons_append, List.nil_append, unspell, ih]
    rw [hletter _ (by omega), hletter _ (by omega), hletter _ (by omega), hletter _ (by omega)]
    have hnat : c.toNat / 4096 * 4096 + c.toNat / 256 % 16 * 256 + c.toNat / 16 % 16 * 16 +
        c.toNat % 16 = c.toNat := by omega
    rw [hnat, UInt16.ofNat_toNat]

theorem dash_not_mem_spell (c : UInt16) : unit '-' ∉ spell c := by
  have hlt := c.toNat_lt
  intro h
  obtain ⟨n, hn, h⟩ := List.mem_map.1 h
  have hn : n < 16 := by
    simp only [List.mem_cons, List.not_mem_nil, or_false] at hn
    omega
  have hnat := congrArg UInt16.toNat h
  rw [toNat_letter hn] at hnat
  have hdash : (unit '-').toNat = 45 := rfl
  omega

theorem ideal_spelled : spelled.Ideal fun _ _ => True := by
  intro seed t keys signer a ha
  cases ha
  refine ⟨js "\n\n" ++ t.flatMap spell, js "\n", rfl, by simp [js], ?_, t, ?_, ?_⟩
  · rw [List.mem_append, List.mem_flatMap]
    rintro (h | ⟨c, -, h⟩)
    · revert h
      decide
    · exact dash_not_mem_spell c h
  · have hread : ∀ b : JSText, spelled.readMessage (firstLine ++ (js "\n\n" ++ b ++ lastLine)) =
        some (unspell b) := by
      intro b
      have hassoc : firstLine ++ (js "\n\n" ++ b ++ lastLine) =
          (firstLine ++ js "\n\n") ++ (b ++ lastLine) := by simp only [List.append_assoc]
      have hfirst : (firstLine ++ js "\n\n").isPrefixOf
          ((firstLine ++ js "\n\n") ++ (b ++ lastLine)) = true :=
        List.isPrefixOf_iff_prefix.2 (List.prefix_append _ _)
      have hlast : lastLine.isSuffixOf ((firstLine ++ js "\n\n") ++ (b ++ lastLine)) = true := by
        rw [List.isSuffixOf_iff_suffix, ← List.append_assoc]
        exact List.suffix_append _ _
      have hlen : (firstLine ++ js "\n\n").length = firstLine.length + 2 := List.length_append
      simp only [spelled]
      rw [hassoc, hfirst, hlast, Bool.and_self, if_pos rfl, ← hlen, List.drop_left,
        List.rdrop_append_length]
    rw [hread, unspell_spell]
    rfl
  · exact fun _ _ _ _ _ => ⟨[], rfl⟩

def asciiOnly : Unicode := ⟨List.map lower, lower⟩

/-- A text about MIME. -/
def aboutMime : JSText :=
  js "Content-Type: multipart/mixed; boundary=x\n--x\nContent-Type: text/plain\n\nhi\n--x--"

theorem aboutMime_changed : ¬∀ (P : OpenPgp) (Pair : P.Key → P.PrivateKey → Prop), P.Ideal Pair →
    ∀ (U : Unicode) (privateKey : P.PrivateKey) (t : JSText), trim t = t →
      Returns P U Pair privateKey t := by
  intro hall
  have htrim : trim aboutMime = aboutMime := by decide +kernel
  obtain ⟨verified, signatureKeyId, h⟩ := hall spelled _ ideal_spelled asciiOnly () aboutMime htrim
    0 [[]] none none _ rfl ⟨[], by simp, (), rfl, trivial⟩ ⟨_, [], none, none⟩ rfl rfl 0
    (fun _ => ⟨none, none⟩) none
  have hdata : decrypt spelled asciiOnly 2 (fun _ => ⟨none, none⟩) none
      ⟨firstLine ++ (js "\n\n" ++ aboutMime.flatMap spell ++ (lastLine ++ js "\n")), [], none, none⟩ =
      some (.ok ⟨js "hi", false, none⟩) := by decide +kernel
  rw [hdata] at h
  have hne : js "hi" ≠ aboutMime := by decide +kernel
  exact hne (congrArg Decrypted.data (Except.ok.inj (Option.some.inj h)))

/-- A text with a part that looks like MIME, and with the beginning of a block. -/
def quoting : JSText :=
  js "He wrote:\nContent-Type: text/html\nboundary=none\n> -----BEGIN PGP MESSAGE-----\n> no more"

theorem quoting_returns : Returns spelled asciiOnly (fun _ _ => True) () quoting := by
  have hread : spelled.readMessage (targetArmored quoting) = none := by decide +kernel
  have htest : looksMultipart quoting = false ∧ looksBase64 quoting = false := by decide +kernel
  refine decrypt_encrypt ideal_spelled (by decide +kernel) ⟨by decide +kernel, by decide +kernel,
    fun h => ?_, fun _ h => ?_, fun _ keys => ?_⟩
  · rw [htest.1] at h
    cases h
  · rw [htest.2] at h
    cases h
  · show (spelled.readMessage (targetArmored quoting)).bind _ = none
    rw [hread]
    rfl

end E2Mail.Frontend.Pgp
