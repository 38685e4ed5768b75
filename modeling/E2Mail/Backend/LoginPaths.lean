import E2Mail.Backend.Footprint

/-!
# The paths through the login handlers

What a request has behind it when it makes one of the two calls that matter to
the second factor: creating a session, and writing a two-factor row back. Each
is a statement about the request's own calls and their answers, so it holds
however the request is interleaved with others.

* `Grounds` — what comes before a session: for `Login` two lookups that showed
  nothing, for `Verify2FA` an accepted code, for `WebAuthnLoginVerify` a verified
  assertion.
* `SaveGrounds` — what comes before a write of a two-factor row: the last lookup
  of it, of whose hashes at most one has been taken out.
* `PathRule` — the two together; every request keeps it (`pathRule_prog`).
-/

namespace E2Mail.Backend

open Lib

/-! ## Grounds -/

/-- A secret the stored column stands for: its text, or what a data key opens it to. -/
def SecretOf (P : Params) (t : TwoFA) (secret : String) : Prop :=
  secret = P.text t.secret ∨ ∃ dek, t.secret.decrypt (.dek dek) = some secret

/-- Both lookups of a `Login` have been made, and neither showed a row. -/
def Blind (owner : String) (h : List (Event Op Ans)) : Prop :=
  ∃ h₁ r₁ r₂ h₂, h = h₁ ++ ⟨.getTwoFA owner, r₁⟩ :: ⟨.countWebAuthn owner, r₂⟩ :: h₂ ∧
    ignoreErr none r₁ = none ∧ ignoreErr 0 r₂ = 0

/-- The row as it is written back without the hash at `idx`. -/
def TwoFA.without (t : TwoFA) (idx : Nat) : TwoFA :=
  { t with backupHashes := t.backupHashes.eraseIdx idx }

/-- The code was accepted as a TOTP code. -/
def AcceptedTOTP (P : Params) (code owner : String) (h : List (Event Op Ans)) : Prop :=
  (∃ t, ⟨.getTwoFA owner, .ok (some t)⟩ ∈ h ∧
    ∃ secret, SecretOf P t secret ∧ ⟨.validateCode secret code, true⟩ ∈ h) ∧
  ∀ secret code, ⟨.validateCode secret code, false⟩ ∉ h

/-- The code was accepted as a backup code, and the row written back without its hash. -/
def AcceptedBackup (P : Params) (code owner : String) (h : List (Event Op Ans)) : Prop :=
  ∃ t idx r h₁ h₂ h₃, h = h₁ ++ ⟨.getTwoFA owner, .ok (some t)⟩ :: h₂ ++
      ⟨.saveTwoFA (t.without idx), r⟩ :: h₃ ∧
    (∀ v ∈ h₂, v.1 ≠ .getTwoFA owner) ∧ validateBackupCode P code t.backupHashes = some idx

/-- `Verify2FA` has accepted the code for a pending login. -/
def Accepted (P : Params) (req : Verify2FARequest) (owner : String) (h : List (Event Op Ans)) :
    Prop :=
  (∃ pl, ⟨.pendingGet req.challenge, some pl⟩ ∈ h ∧ owner = P.normalizeEmail pl.email) ∧
    (AcceptedTOTP P (trimSpace req.code) owner h ∨ AcceptedBackup P (trimSpace req.code) owner h)

/-- `WebAuthnLoginVerify` has had the assertion verified for a pending login. -/
def Verified (P : Params) (ceremonyID assertion owner : String) (h : List (Event Op Ans)) : Prop :=
  ∃ pendingID pl stored cred, ⟨.peekLoginPayload ceremonyID, some pendingID⟩ ∈ h ∧
    ⟨.pendingGet pendingID, some pl⟩ ∈ h ∧ owner = P.normalizeEmail pl.email ∧
    ⟨.listWebAuthn owner, .ok stored⟩ ∈ h ∧
    ⟨.finishLogin ⟨P.ownerID owner, owner, stored.filterMap (P.parseCredential ·.credentialJSON)⟩
      ceremonyID assertion, .ok cred⟩ ∈ h

/-- The history a request needs for a session of `owner`. -/
def Grounds (P : Params) (req : Request) (owner : String) (h : List (Event Op Ans)) : Prop :=
  match req with
  | .login _ _ => Blind owner h
  | .verify2FA _ (.ok r) => Accepted P r owner h
  | .webAuthnLoginVerify _ ceremonyID assertion => Verified P ceremonyID assertion owner h
  | _ => False

/-- No session has been asked for yet. -/
def NoSession (h : List (Event Op Ans)) : Prop := ∀ v ∈ h, v.1.part ≠ .sessions

/-- The history a request needs to write a two-factor row: it has looked the row
up, not again since, and has taken out at most the hash of a backup code. -/
def SaveGrounds (t : TwoFA) (h : List (Event Op Ans)) : Prop :=
  ∃ owner t₀ h₁ h₂, h = h₁ ++ ⟨.getTwoFA owner, .ok (some t₀)⟩ :: h₂ ∧
    (∀ v ∈ h₂, v.1 ≠ .getTwoFA owner) ∧ t.ownerEmail = t₀.ownerEmail ∧
    (t.backupHashes = t₀.backupHashes ∨ ∃ idx, t = t₀.without idx)

/-- Sessions and two-factor writes happen on grounds only, and a request asks for
one session at most. Enrolling is the one write that reads nothing before. -/
structure PathRule (P : Params) (req : Request) (h : List (Event Op Ans)) (o : Op) : Prop where
  session : ∀ s dek, o = .sessionCreate s dek → Grounds P req s.email h ∧ NoSession h
  save : ∀ t, o = .saveTwoFA t → req = .env (.saveTwoFA t) ∨ SaveGrounds t h

/-! ## Lasting facts -/

/-- Parts whose calls neither create sessions, nor touch two-factor rows, nor validate codes. -/
def Part.quiet : Part → Bool
  | sessions | twoFA | services => false
  | _ => true

/-- Calls that neither create sessions nor validate codes. -/
def Part.calm : Part → Bool
  | sessions | services => false
  | _ => true

/-- A fact about the history that calls on the parts `ok` cannot break. -/
def Lasting (ok : Part → Bool) (I : List (Event Op Ans) → Prop) : Prop :=
  ∀ h o (r : Ans o), ok o.part = true → I h → I (h ++ [⟨o, r⟩])

variable {ok : Part → Bool}

theorem Part.calm_of_quiet {p : Part} (h : p.quiet = true) : p.calm = true := by
  cases p <;> first | rfl | cases h

theorem Lasting.quiet {I : List (Event Op Ans) → Prop} (h : Lasting Part.calm I) :
    Lasting Part.quiet I :=
  fun h' o r ho hI => h h' o r (Part.calm_of_quiet ho) hI

theorem Lasting.and {I J : List (Event Op Ans) → Prop} (hI : Lasting ok I) (hJ : Lasting ok J) :
    Lasting ok fun h => I h ∧ J h :=
  fun h o r ho hIJ => ⟨hI h o r ho hIJ.1, hJ h o r ho hIJ.2⟩

theorem lasting_mem (v : Event Op Ans) : Lasting ok fun h => v ∈ h :=
  fun _ _ _ _ hv => List.mem_append_left _ hv

theorem noSession_nil : NoSession [] := by
  intro v hv
  cases hv

theorem NoSession.snoc {h : List (Event Op Ans)} (hno : NoSession h) {o : Op} {r : Ans o}
    (ho : (o.part == .sessions) = false) : NoSession (h ++ [⟨o, r⟩]) := by
  intro v hv
  rcases List.mem_append.mp hv with hv | hv
  · exact hno v hv
  · obtain rfl := List.mem_singleton.mp hv
    exact beq_eq_false_iff_ne.mp ho

theorem lasting_noSession : Lasting Part.calm NoSession := by
  intro h o r ho hno
  refine hno.snoc (beq_eq_false_iff_ne.mpr fun hpart => ?_)
  rw [hpart] at ho
  cases ho

theorem lasting_blind (owner : String) : Lasting ok (Blind owner) := by
  rintro h o r - ⟨h₁, r₁, r₂, h₂, rfl, hr₁, hr₂⟩
  exact ⟨h₁, r₁, r₂, h₂ ++ [⟨o, r⟩], by simp, hr₁, hr₂⟩

theorem lasting_acceptedTOTP (P : Params) (code owner : String) :
    Lasting Part.calm (AcceptedTOTP P code owner) := by
  rintro h o r ho ⟨⟨t, ht, secret, hs, hv⟩, hno⟩
  refine ⟨⟨t, List.mem_append_left _ ht, secret, hs, List.mem_append_left _ hv⟩, ?_⟩
  intro secret' code' hmem
  rcases List.mem_append.mp hmem with hmem | hmem
  · exact hno secret' code' hmem
  · cases List.mem_singleton.mp hmem
    cases ho

theorem lasting_acceptedBackup (P : Params) (code owner : String) :
    Lasting ok (AcceptedBackup P code owner) := by
  rintro h o r - ⟨t, idx, ans, h₁, h₂, h₃, rfl, hlast, hidx⟩
  exact ⟨t, idx, ans, h₁, h₂, h₃ ++ [⟨o, r⟩], by simp, hlast, hidx⟩

theorem lasting_accepted (P : Params) (req : Verify2FARequest) (owner : String) :
    Lasting Part.calm (Accepted P req owner) := by
  rintro h o r ho ⟨⟨pl, hpl, howner⟩, hcode⟩
  refine ⟨⟨pl, List.mem_append_left _ hpl, howner⟩, ?_⟩
  rcases hcode with ht | hb
  · exact .inl (lasting_acceptedTOTP P _ owner h o r ho ht)
  · exact .inr (lasting_acceptedBackup P _ owner h o r ho hb)

theorem lasting_verified (P : Params) (ceremonyID assertion owner : String) :
    Lasting ok (Verified P ceremonyID assertion owner) := by
  rintro h o r - ⟨pendingID, pl, stored, cred, h₁, h₂, ho, h₃, h₄⟩
  exact ⟨pendingID, pl, stored, cred, List.mem_append_left _ h₁, List.mem_append_left _ h₂, ho,
    List.mem_append_left _ h₃, List.mem_append_left _ h₄⟩

/-! ## Programs that keep the rule -/

section Rule

variable {P : Params} {req : Request} {I : List (Event Op Ans) → Prop} {h : List (Event Op Ans)}

/-- The two calls the rule is about. -/
def Op.marked : Op → Bool
  | sessionCreate _ _ | saveTwoFA _ => true
  | _ => false

theorem pathRule_of_not_marked {o : Op} (ho : o.marked = false) : PathRule P req h o := by
  constructor
  · rintro s dek rfl
    cases ho
  · rintro t rfl
    cases ho

theorem not_marked_of_part {o : Op} (hs : o.part ≠ .sessions) (ht : o.part ≠ .twoFA) :
    o.marked = false := by
  cases o with
  | sessionCreate s dek => exact absurd rfl hs
  | saveTwoFA t => exact absurd rfl ht
  | _ => rfl

/-- A program on quiet parts keeps every fact that quiet calls cannot break. -/
theorem along_quiet {α : Type} {ps : List Part} {p : Handler α} (hp : Uses ps p)
    (hps : ps.all Part.quiet = true) (hl : Lasting Part.quiet I) (hI : I h) :
    Along (PathRule P req) (fun h _ => I h) p h := by
  have hquiet : ∀ o : Op, ps.contains o.part = true → o.part.quiet = true := fun o ho =>
    List.all_eq_true.mp hps _ (List.contains_iff_mem.mp ho)
  refine Along.of_only hp hI (fun h o r ho hI => hl h o r (hquiet o ho) hI) fun h o ho _ => ?_
  refine pathRule_of_not_marked (not_marked_of_part ?_ ?_) <;>
    (intro hpart; have hq := hquiet o ho; rw [hpart] at hq; cases hq)

/-- A program without sessions and two-factor rows keeps the rule. -/
theorem along_unmarked {α : Type} {ps : List Part} {p : Handler α} (hp : Uses ps p)
    (hs : Part.sessions ∉ ps) (ht : Part.twoFA ∉ ps) :
    Along (PathRule P req) (fun _ _ => True) p h := by
  refine Along.of_only (I := fun _ => True) hp trivial (fun _ _ _ _ _ => trivial) fun h o ho _ => ?_
  have hmem := List.contains_iff_mem.mp ho
  exact pathRule_of_not_marked
    (not_marked_of_part (fun hpart => hs (hpart ▸ hmem)) fun hpart => ht (hpart ▸ hmem))

/-- The migration writes back the row it has just looked up. -/
theorem along_maybeMigrateTwoFA {owner : String} {dek : Nat} (hl : Lasting Part.calm I) (hI : I h) :
    Along (PathRule P req) (fun h _ => I h) (maybeMigrateTwoFA P owner dek) h := by
  refine Along.step (pathRule_of_not_marked rfl) fun r => ?_
  have hI₁ := hl h (.getTwoFA owner) r rfl hI
  rcases r with e | _ | t
  · exact hI₁
  · exact hI₁
  · dsimp only
    split
    · exact hI₁
    · generalize looksLikeSecret P (P.text t.secret) = plain
      cases plain with
      | false => exact hI₁
      | true =>
        refine Along.step (pathRule_of_not_marked rfl) fun r => ?_
        have hI₂ := hl _ (.encrypt (.dek dek) (P.text t.secret)) r rfl hI₁
        rcases r with e | enc
        · exact hI₂
        · refine Along.step ⟨?_, ?_⟩ fun r => hl _ (.saveTwoFA _) r rfl hI₂
          · rintro s dek' ⟨⟩
          · intro t' ht'
            cases ht'
            refine .inr ⟨owner, t, h, [⟨.encrypt (.dek dek) (P.text t.secret), .ok enc⟩], by simp,
              ?_, rfl, .inl rfl⟩
            intro v hv
            obtain rfl := List.mem_singleton.mp hv
            rintro ⟨⟩

/-- The session both completions create, and what follows it. -/
theorem along_sessionCreate {s : Session} {dek : Nat} {f : Res Session → Handler Resp}
    (hI : I h) (hno : NoSession h) (hgrounds : ∀ h, I h → Grounds P req s.email h)
    (hf : ∀ r, Uses [.pending, .limiter] (f r)) :
    Along (PathRule P req) (fun _ _ => True) (call (.sessionCreate s dek) >>= f) h := by
  refine Along.step ⟨?_, ?_⟩ fun r => along_unmarked (hf r) (by decide) (by decide)
  · intro s' dek' hs
    cases hs
    exact ⟨hgrounds h hI, hno⟩
  · rintro t ⟨⟩

theorem along_completeLogin {ip challenge : String} {pl : PendingLogin}
    (hl : Lasting Part.calm I) (hI : I h) (hno : NoSession h)
    (hgrounds : ∀ h, I h → Grounds P req (P.normalizeEmail pl.email) h) :
    Along (PathRule P req) (fun _ _ => True) (completeLogin P ip pl challenge) h := by
  have hl' := hl.and lasting_noSession
  refine along_bind (along_quiet (uses_resolveCredential _ _) rfl hl'.quiet ⟨hI, hno⟩) fun h r hI => ?_
  rcases r with e | ⟨cred, dek⟩
  · trivial
  refine along_bind (along_maybeMigrateTwoFA hl' hI) fun h _ hI => ?_
  refine along_bind (along_quiet (uses_ensureFirstAccount P _ pl dek) rfl hl'.quiet hI) fun h r hI => ?_
  rcases r with resp | accounts
  · trivial
  refine along_sessionCreate hI.1 hI.2 hgrounds fun r => ?_
  rcases r with e | sess
  · exact Uses.pure _
  refine Uses.step rfl fun _ => ?_
  refine Uses.bind (uses_onBothKeys uses_resetFailures _ _) (by decide) fun _ => ?_
  exact Uses.bind (uses_onBothKeys uses_resetFailures _ _) (by decide) fun _ => Uses.pure _

theorem along_loginWithPassword {ip ownerEmail : String} {pl : PendingLogin}
    (hl : Lasting Part.calm I) (hI : I h) (hno : NoSession h)
    (hgrounds : ∀ h, I h → Grounds P req ownerEmail h) :
    Along (PathRule P req) (fun _ _ => True) (loginWithPassword P ip ownerEmail pl) h := by
  have hl' := hl.and lasting_noSession
  refine along_bind (along_quiet (uses_resolveCredential _ _) rfl hl'.quiet ⟨hI, hno⟩) fun h r hI => ?_
  rcases r with e | ⟨cred, dek⟩
  · trivial
  refine along_bind (along_quiet (uses_ensureFirstAccount P _ pl dek) rfl hl'.quiet hI) fun h r hI => ?_
  rcases r with resp | accounts
  · trivial
  refine along_bind (along_maybeMigrateTwoFA hl' hI) fun h _ hI => ?_
  refine along_sessionCreate hI.1 hI.2 hgrounds fun r => ?_
  rcases r with e | sess
  · exact Uses.pure _
  exact Uses.bind (uses_onBothKeys uses_resetFailures _ _) (by decide) fun _ => Uses.pure _

/-- Recording a failure and answering ends a request. -/
theorem along_recordFailures {ipKey : String} {emailKey : Option String} {resp : Resp} :
    Along (PathRule P req) (fun _ _ => True)
      (onBothKeys recordFailure ipKey emailKey >>= fun _ => pure resp) h :=
  along_unmarked
    (Uses.bind (uses_onBothKeys uses_recordFailure _ _) (List.Subset.refl _) fun _ => Uses.pure _)
    (by decide) (by decide)

end Rule

/-! ## The handlers -/

/-- `Login` creates a session after two lookups that showed nothing. -/
theorem along_login (P : Params) (ip : String) (body : Except BodyErr LoginRequest) :
    Along (PathRule P (.login ip body)) (fun _ _ => True) (login P ip body) [] := by
  rcases body with e | req
  · trivial
  unfold login
  dsimp only
  split
  · trivial
  refine along_bind (along_quiet (uses_anyBlocked _ _ _ _ _) rfl lasting_noSession.quiet noSession_nil)
    fun h b hno => ?_
  cases b with
  | true => trivial
  | false =>
    refine Along.step (pathRule_of_not_marked rfl) fun r => ?_
    rcases r with e | _
    · exact along_recordFailures
    refine Along.step (pathRule_of_not_marked rfl) fun r₁ => ?_
    refine Along.step (pathRule_of_not_marked rfl) fun r₂ => ?_
    split
    · exact ⟨pathRule_of_not_marked rfl, fun _ => trivial⟩
    · rename_i hnone
      obtain ⟨h₁, h₂⟩ := not_or.mp hnone
      refine along_loginWithPassword (I := Blind (P.normalizeEmail req.email))
        (lasting_blind _) ?_ (((hno.snoc rfl).snoc rfl).snoc rfl) fun h hb => hb
      exact ⟨_, r₁, r₂, [], by rw [List.append_assoc]; rfl, by simpa using h₁, by simpa using h₂⟩

/-- The secret `Verify2FA` checks against stands for the stored column. -/
theorem along_totpSecret {P : Params} {req : Request} {I : List (Event Op Ans) → Prop}
    {h : List (Event Op Ans)} (ownerEmail : String) (pl : PendingLogin) (t : TwoFA)
    (hl : Lasting Part.quiet I) (hI : I h) :
    Along (PathRule P req) (fun h secret => I h ∧ SecretOf P t secret)
      (totpSecret P ownerEmail pl t) h := by
  refine along_bind (along_quiet (uses_resolveCredential _ _) rfl hl hI) fun h r hI => ?_
  rcases r with e | ⟨cred, dek⟩
  · exact ⟨hI, .inl rfl⟩
  · dsimp only
    split
    · rename_i dec hdec
      exact ⟨hI, .inr ⟨dek, hdec⟩⟩
    · exact ⟨hI, .inl rfl⟩

/-- What `Verify2FA` has behind it once the pending login is read, before any
code is validated. -/
def Opened (req : Verify2FARequest) (pl? : Option PendingLogin) (h : List (Event Op Ans)) : Prop :=
  ⟨.pendingGet req.challenge, pl?⟩ ∈ h ∧ NoSession h ∧ ∀ v ∈ h, v.1.part ≠ .services

/-- The two-factor row is loaded, and not looked up since. -/
def Loaded (owner : String) (t : TwoFA) (h : List (Event Op Ans)) : Prop :=
  ∃ h₁ h₂, h = h₁ ++ ⟨.getTwoFA owner, .ok (some t)⟩ :: h₂ ∧ ∀ v ∈ h₂, v.1 ≠ .getTwoFA owner

theorem lasting_opened (req : Verify2FARequest) (pl? : Option PendingLogin) :
    Lasting Part.calm (Opened req pl?) := by
  rintro h o r ho ⟨hpl, hno, hserv⟩
  refine ⟨List.mem_append_left _ hpl, lasting_noSession h o r ho hno, ?_⟩
  intro v hv
  rcases List.mem_append.mp hv with hv | hv
  · exact hserv v hv
  · obtain rfl := List.mem_singleton.mp hv
    intro hpart
    rw [hpart] at ho
    cases ho

theorem Loaded.snoc {owner : String} {t : TwoFA} {h : List (Event Op Ans)} (hl : Loaded owner t h)
    {o : Op} {r : Ans o} (ho : (o.part == .twoFA) = false) : Loaded owner t (h ++ [⟨o, r⟩]) := by
  obtain ⟨h₁, h₂, rfl, hlast⟩ := hl
  refine ⟨h₁, h₂ ++ [⟨o, r⟩], by simp, fun v hv => ?_⟩
  rcases List.mem_append.mp hv with hv | hv
  · exact hlast v hv
  · obtain rfl := List.mem_singleton.mp hv
    rintro rfl
    cases ho

theorem lasting_loaded (owner : String) (t : TwoFA) : Lasting Part.quiet (Loaded owner t) := by
  intro h o r ho hl
  refine hl.snoc (beq_eq_false_iff_ne.mpr fun hpart => ?_)
  rw [hpart] at ho
  cases ho

/-- `Verify2FA` creates a session after accepting the code. -/
theorem along_verifyCode {P : Params} {ip : String} {req : Verify2FARequest} {pl : PendingLogin}
    {t : TwoFA} {h : List (Event Op Ans)} (hopen : Opened req (some pl) h)
    (hload : Loaded (P.normalizeEmail pl.email) t h) :
    Along (PathRule P (.verify2FA ip (.ok req))) (fun _ _ => True)
      (verifyCode P ip req pl t) h := by
  have hlast := (lasting_opened req (some pl)).quiet.and (lasting_loaded (P.normalizeEmail pl.email) t)
  refine along_bind (along_totpSecret _ pl t hlast ⟨hopen, hload⟩) fun h secret hs => ?_
  obtain ⟨⟨⟨hpl, hno, hserv⟩, h₁, h₂, rfl, hsince⟩, hsec⟩ := hs
  refine Along.step (pathRule_of_not_marked rfl) fun valid => ?_
  cases valid with
  | true =>
    refine along_completeLogin (I := Accepted P req (P.normalizeEmail pl.email))
      (lasting_accepted P req _) ?_ (hno.snoc rfl) fun h ha => ha
    refine ⟨⟨pl, List.mem_append_left _ hpl, rfl⟩, .inl ⟨⟨t, by simp, secret, hsec, by simp⟩, ?_⟩⟩
    -- the one validation so far answered `true`
    intro secret' code' hmem
    rcases List.mem_append.mp hmem with hmem | hmem
    · exact hserv _ hmem rfl
    · cases List.mem_singleton.mp hmem
  | false =>
    rw [if_neg Bool.false_ne_true]
    have hvalid : ∀ v ∈ h₂ ++ [⟨.validateCode secret (trimSpace req.code), false⟩],
        v.1 ≠ .getTwoFA (P.normalizeEmail pl.email) := by
      intro v hv
      rcases List.mem_append.mp hv with hv | hv
      · exact hsince v hv
      · obtain rfl := List.mem_singleton.mp hv
        rintro ⟨⟩
    split
    · rename_i idx hidx
      refine Along.step ⟨?_, ?_⟩ fun r => ?_
      · rintro s dek ⟨⟩
      · intro t' ht'
        cases ht'
        exact .inr ⟨_, t, h₁, _, by simp, hvalid, rfl, .inr ⟨idx, rfl⟩⟩
      · refine along_completeLogin (I := Accepted P req (P.normalizeEmail pl.email))
          (lasting_accepted P req _) ?_ ((hno.snoc rfl).snoc rfl) fun h ha => ha
        refine ⟨⟨pl, List.mem_append_left _ (List.mem_append_left _ hpl), rfl⟩, .inr ?_⟩
        exact ⟨t, idx, r, h₁, _, [], by simp; rfl, hvalid, hidx⟩
    · exact Along.step (pathRule_of_not_marked rfl) fun _ => along_recordFailures

theorem along_verify2FA (P : Params) (ip : String) (body : Except BodyErr Verify2FARequest) :
    Along (PathRule P (.verify2FA ip body)) (fun _ _ => True) (verify2FA P ip body) [] := by
  rcases body with e | req
  · trivial
  unfold verify2FA
  dsimp only
  split
  · trivial
  refine Along.step (pathRule_of_not_marked rfl) fun pl? => ?_
  have hopen : Opened req pl? [⟨.pendingGet req.challenge, pl?⟩] := by
    refine ⟨List.mem_singleton_self _, ?_, ?_⟩ <;>
      (intro v hv; obtain rfl := List.mem_singleton.mp hv; rintro ⟨⟩)
  refine along_bind (along_quiet (uses_anyBlocked _ _ _ _ _) rfl (lasting_opened req pl?).quiet hopen)
    fun h b hopen => ?_
  cases b with
  | true => trivial
  | false =>
    rcases pl? with _ | pl
    · exact along_recordFailures
    refine Along.step (pathRule_of_not_marked rfl) fun r => ?_
    have hopen' := lasting_opened req (some pl) h (.getTwoFA (P.normalizeEmail pl.email)) r rfl hopen
    rcases r with e | _ | t
    · trivial
    · exact ⟨pathRule_of_not_marked rfl, fun _ => trivial⟩
    · exact along_verifyCode hopen' ⟨h, [], rfl, fun v hv => absurd hv (List.not_mem_nil)⟩

/-- `WebAuthnLoginBegin` creates no session. -/
theorem uses_webAuthnLoginBegin (P : Params) (ip : String) (body : Except BodyErr String) :
    Uses [.pending, .limiter, .passkeys, .ceremonies] (webAuthnLoginBegin P ip body) := by
  unfold webAuthnLoginBegin
  split
  · exact Uses.pure _
  rcases body with e | challenge
  · exact Uses.pure _
  dsimp only
  split
  · exact Uses.pure _
  refine Uses.step rfl fun pl? => ?_
  rcases pl? with _ | pl
  · exact Uses.pure _
  refine Uses.bind (uses_anyBlocked _ _ _ _ _) (by decide) fun b => ?_
  cases b with
  | true => exact Uses.pure _
  | false =>
    refine Uses.bind (uses_loadWebAuthnUser P _) (by decide) fun r => ?_
    rcases r with e | user
    · exact Uses.pure _
    refine Uses.step rfl fun r => ?_
    rcases r with e | ceremonyID <;> exact Uses.pure _

/-- `WebAuthnLoginVerify` creates a session after the assertion is verified. -/
theorem along_webAuthnLoginVerify (P : Params) (ip ceremonyID assertion : String) :
    Along (PathRule P (.webAuthnLoginVerify ip ceremonyID assertion)) (fun _ _ => True)
      (webAuthnLoginVerify P ip ceremonyID assertion) [] := by
  unfold webAuthnLoginVerify
  split
  · trivial
  split
  · trivial
  refine Along.step (pathRule_of_not_marked rfl) fun pid? => ?_
  have hno := noSession_nil.snoc (o := .peekLoginPayload ceremonyID) (r := pid?) rfl
  rcases pid? with _ | pendingID
  · trivial
  dsimp only
  split
  · trivial
  refine Along.step (pathRule_of_not_marked rfl) fun pl? => ?_
  have hno := hno.snoc (o := .pendingGet pendingID) (r := pl?) rfl
  rcases pl? with _ | pl
  · trivial
  have hl := ((lasting_mem ⟨.peekLoginPayload ceremonyID, some pendingID⟩).and
    (lasting_mem ⟨.pendingGet pendingID, some pl⟩)).and lasting_noSession
  refine along_bind (along_quiet (uses_anyBlocked _ _ _ _ _) rfl hl.quiet ⟨by simp, hno⟩)
    fun h b hI => ?_
  cases b with
  | true => trivial
  | false =>
    obtain ⟨⟨hpeek, hget⟩, hno⟩ := hI
    refine Along.step (pathRule_of_not_marked rfl) fun r => ?_
    rcases r with e | stored
    · trivial
    refine Along.step (pathRule_of_not_marked rfl) fun r => ?_
    rcases r with e | cred
    · exact along_recordFailures
    refine Along.step (pathRule_of_not_marked rfl) fun r => ?_
    have hver : Lasting Part.calm (Verified P ceremonyID assertion (P.normalizeEmail pl.email)) :=
      lasting_verified P ceremonyID assertion _
    refine along_bind (along_quiet (uses_onBothKeys uses_resetFailures _ _) rfl
      (hver.and lasting_noSession).quiet ⟨?_, ((hno.snoc rfl).snoc rfl).snoc rfl⟩)
      fun h _ hv => along_completeLogin hver hv.1 hv.2 fun h hv => hv
    exact ⟨pendingID, pl, stored, cred, by simp [hpeek], by simp [hget], rfl, by simp, by simp⟩

/-- **Every request keeps the rule**, whatever its calls answer. -/
theorem pathRule_prog (P : Params) (req : Request) :
    Along (PathRule P req) (fun _ _ => True) (req.prog P) [] := by
  cases req with
  | login ip body => exact along_login P ip body
  | verify2FA ip body => exact along_verify2FA P ip body
  | webAuthnLoginBegin ip body =>
    exact along_unmarked (uses_webAuthnLoginBegin P ip body) (by decide) (by decide)
  | webAuthnLoginVerify ip ceremonyID assertion =>
    exact along_webAuthnLoginVerify P ip ceremonyID assertion
  | changePassword ctx body =>
    exact along_unmarked (uses_changePassword P ctx body) (by decide) (by decide)
  | createAccount ctx body =>
    exact along_unmarked (uses_createAccount ctx body) (by decide) (by decide)
  | updateAccount ctx id body =>
    exact along_unmarked (uses_updateAccount ctx id body) (by decide) (by decide)
  | deleteAccount ctx id => exact along_unmarked (uses_deleteAccount ctx id) (by decide) (by decide)
  | setDefaultAccount ctx id =>
    exact along_unmarked (uses_setDefaultAccount ctx id) (by decide) (by decide)
  | env step =>
    refine Along.step ⟨?_, ?_⟩ fun _ => trivial
    · intro s dek hs
      cases step <;> cases hs
    · intro t ht
      cases step with
      | saveTwoFA t' =>
        cases ht
        exact .inl rfl
      | _ => cases ht

end E2Mail.Backend
