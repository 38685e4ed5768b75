import E2Mail.Backend.LoginPaths

/-!
# The second-factor gate

A session for an owner who has a second factor should be created only by a
request that presented one. The handlers decide this on what their lookups
answered, and `Login` discards the lookups' errors.

* `Presented` — a second factor was presented, in terms of the states in which
  the request's calls were made.
* `LookupsSee` — every `Login` of such an owner sees a row with at least one of
  its two lookups. Under it the gate holds in every run; without it a `Login`
  goes through on the password alone.
-/

namespace E2Mail.Backend

open Lib

variable {ι : Type} [DecidableEq ι]

/-! ## The property -/

/-- The owner has an enabled TOTP row or a passkey. -/
def HasFactor (P : Params) (w : World) (owner : String) : Prop :=
  (w.twoFA (P.ownerID owner)).isSome = true ∨ w.passkeysOf P owner ≠ []

instance (P : Params) (w : World) (owner : String) : Decidable (HasFactor P w owner) :=
  inferInstanceAs (Decidable (_ ∨ _))

/-- Request `i` has looked up the pending login `id` while it was stored and unexpired. -/
def ReadPending (i : ι) (tr : List (Entry ι World Op Ans)) (id : String) (pl : PendingLogin) :
    Prop :=
  ∃ x ∈ tr, x.who = i ∧ x.pre.pending id = some pl ∧ x.pre.now ≤ pl.expiresAt

/-- The code was valid for the owner's stored secret. -/
def ValidTOTP (P : Params) (i : ι) (tr : List (Entry ι World Op Ans)) (owner code : String) :
    Prop :=
  ∃ x ∈ tr, ∃ y ∈ tr, x.who = i ∧ y.who = i ∧ ∃ t secret,
    x.pre.twoFA (P.ownerID owner) = some t ∧ SecretOf P t secret ∧
      P.totpValidate y.pre.now secret (trimSpace code) = true

/-- The code's hash was among the owner's stored backup hashes. -/
def UnusedBackupCode (P : Params) (i : ι) (tr : List (Entry ι World Op Ans))
    (owner code : String) : Prop :=
  ∃ x ∈ tr, x.who = i ∧ ∃ t, x.pre.twoFA (P.ownerID owner) = some t ∧
    P.hashCode (P.upper (trimSpace code)) ∈ t.backupHashes

/-- The assertion was verified against the owner's passkeys, in a live ceremony
started for the pending login. -/
def VerifiedAssertion (P : Params) (i : ι) (tr : List (Entry ι World Op Ans))
    (owner pendingID ceremonyID assertion : String) : Prop :=
  (∃ x ∈ tr, x.who = i ∧ ∃ c, x.pre.ceremonies ceremonyID = some c ∧ c.payload = pendingID) ∧
  ∃ x ∈ tr, ∃ y ∈ tr, x.who = i ∧ y.who = i ∧ ∃ c user cred,
    user.credentials = (x.pre.passkeysOf P owner).filterMap (P.parseCredential ·.credentialJSON) ∧
      y.pre.ceremonies ceremonyID = some c ∧ c.expired y.pre.now = false ∧
      P.waFinishLogin user c.data assertion = some cred

/-- Request `i` has presented a second factor of the owner, for a still valid
pending login of the owner. -/
def Presented (P : Params) (req : Request) (i : ι) (tr : List (Entry ι World Op Ans))
    (owner : String) : Prop :=
  match req with
  | .verify2FA _ (.ok r) => ∃ pl, ReadPending i tr r.challenge pl ∧
      P.normalizeEmail pl.email = owner ∧
      (ValidTOTP P i tr owner (trimSpace r.code) ∨ UnusedBackupCode P i tr owner (trimSpace r.code))
  | .webAuthnLoginVerify _ ceremonyID assertion => ∃ pendingID pl, ReadPending i tr pendingID pl ∧
      P.normalizeEmail pl.email = owner ∧
      VerifiedAssertion P i tr owner pendingID ceremonyID assertion
  | _ => False

/-- The session a call has created. -/
def createdSession : Event Op Ans → Option Session
  | ⟨.sessionCreate _ _, .ok sess⟩ => some sess
  | _ => none

theorem createdSession_eq_some {v : Event Op Ans} {sess : Session} :
    createdSession v = some sess ↔ ∃ s dek, v = ⟨.sessionCreate s dek, .ok sess⟩ := by
  constructor
  · intro h
    rcases v with ⟨o, r⟩
    cases o with
    | sessionCreate s dek =>
      rcases r with e | sess'
      · cases h
      · obtain rfl := Option.some.inj h
        exact ⟨s, dek, rfl⟩
    | _ => cases h
  · rintro ⟨s, dek, rfl⟩
    rfl

/-- **The gate.** Whenever a session is created for an owner who has had a
second factor at every step of that login, the login has presented one before. -/
def SecondFactorGate (P : Params) (reqs : ι → Request) (tr : List (Entry ι World Op Ans)) : Prop :=
  ∀ pre e post sess, tr = pre ++ e :: post → createdSession e.event = some sess →
    (∀ x ∈ tr, x.who = e.who → HasFactor P x.pre sess.email) →
    Presented P (reqs e.who) e.who pre sess.email

/-- A lookup that succeeded at a moment when its table held a row of the owner. -/
def SeesTwoFA (P : Params) (owner : String) (e : Entry ι World Op Ans) : Prop :=
  (∃ t, e.event = ⟨.getTwoFA owner, .ok t⟩) ∧ (e.pre.twoFA (P.ownerID owner)).isSome = true

/-- The same for the passkeys. -/
def SeesPasskeys (P : Params) (owner : String) (e : Entry ι World Op Ans) : Prop :=
  (∃ n, e.event = ⟨.countWebAuthn owner, .ok n⟩) ∧ e.pre.passkeysOf P owner ≠ []

/-- Every `Login` of an owner who has a second factor throughout sees a row with
one of its two lookups. -/
def LookupsSee (P : Params) (reqs : ι → Request) (tr : List (Entry ι World Op Ans)) : Prop :=
  ∀ a x b y c ip body owner, tr = a ++ x :: b ++ y :: c → reqs x.who = .login ip body →
    y.who = x.who → x.op = .getTwoFA owner → y.op = .countWebAuthn owner →
    (∀ e ∈ tr, e.who = x.who → HasFactor P e.pre owner) →
    SeesTwoFA P owner x ∨ SeesPasskeys P owner y

/-! ## From the history to the states -/

section Semantics

variable {P : Params} {tr : List (Entry ι World Op Ans)} {c₀ c : Conf ι World Op Ans Resp}

/-- An event of a request's history was answered in some state of the run. -/
theorem entry_of_event (hrun : Run (sem P) c₀ tr c) {i : ι} {o : Op} {r : Ans o}
    (hv : ⟨o, r⟩ ∈ proj i tr) :
    ∃ e ∈ tr, e.who = i ∧ e.event = ⟨o, r⟩ ∧ sem P o e.pre r e.post := by
  obtain ⟨e, he, hwho, hev⟩ := mem_proj.mp hv
  have hsem := hrun.sem_of_mem he
  obtain ⟨who, op, ans, pre, post⟩ := e
  cases hev
  exact ⟨_, he, hwho, rfl, hsem⟩

theorem readPending_of_event (hrun : Run (sem P) c₀ tr c) {i : ι} {id : String}
    {pl : PendingLogin} (hv : ⟨.pendingGet id, some pl⟩ ∈ proj i tr) : ReadPending i tr id pl := by
  obtain ⟨e, he, hwho, -, hsem⟩ := entry_of_event hrun hv
  obtain ⟨hpl, hexp⟩ := pendingGet_answer hsem
  exact ⟨e, he, hwho, hpl, hexp⟩

/-- The two-factor row a lookup answered is the stored one, up to the owner's spelling. -/
theorem twoFA_of_event (hrun : Run (sem P) c₀ tr c) {i : ι} {owner : String} {t : TwoFA}
    (hv : ⟨.getTwoFA owner, .ok (some t)⟩ ∈ proj i tr) :
    ∃ e ∈ tr, e.who = i ∧ ∃ t', e.pre.twoFA (P.ownerID owner) = some t' ∧
      t'.secret = t.secret ∧ t'.backupHashes = t.backupHashes := by
  obtain ⟨e, he, hwho, -, hsem⟩ := entry_of_event hrun hv
  have hrow := getTwoFA_answer hsem
  rw [World.getTwoFA] at hrow
  obtain ⟨t', ht', rfl⟩ := Option.map_eq_some_iff.mp hrow.symm
  exact ⟨e, he, hwho, t', ht', rfl, rfl⟩

theorem presented_of_accepted (hrun : Run (sem P) c₀ tr c) {i : ι} {ip owner : String}
    {req : Verify2FARequest} (ha : Accepted P req owner (proj i tr)) :
    Presented P (.verify2FA ip (.ok req)) i tr owner := by
  obtain ⟨⟨pl, hpl, howner⟩, hcode⟩ := ha
  refine ⟨pl, readPending_of_event hrun hpl, howner.symm, ?_⟩
  rcases hcode with ⟨⟨t, ht, secret, hs, hv⟩, -⟩ | ⟨t, idx, r, h₁, h₂, h₃, hproj, -, hidx⟩
  · obtain ⟨x, hx, hwho, t', ht', hsec, -⟩ := twoFA_of_event hrun ht
    obtain ⟨y, hy, hywho, -, hsem⟩ := entry_of_event hrun hv
    refine .inl ⟨x, hx, y, hy, hwho, hywho, t', secret, ht', ?_, validateCode_answer hsem⟩
    rw [SecretOf, hsec]
    exact hs
  · have ht : ⟨.getTwoFA owner, .ok (some t)⟩ ∈ proj i tr := by
      rw [hproj]
      simp
    obtain ⟨x, hx, hwho, t', ht', -, hhashes⟩ := twoFA_of_event hrun ht
    refine .inr ⟨x, hx, hwho, t', ht', ?_⟩
    obtain ⟨hlt, hcode, -⟩ := List.findIdx?_eq_some_iff_getElem.mp hidx
    rw [hhashes, ← of_decide_eq_true hcode]
    exact List.getElem_mem hlt

theorem presented_of_verified (hrun : Run (sem P) c₀ tr c) {i : ι}
    {ip ceremonyID assertion owner : String}
    (hv : Verified P ceremonyID assertion owner (proj i tr)) :
    Presented P (.webAuthnLoginVerify ip ceremonyID assertion) i tr owner := by
  obtain ⟨pendingID, pl, stored, cred, hpeek, hget, ho, hlist, hfin⟩ := hv
  refine ⟨pendingID, pl, readPending_of_event hrun hget, ho.symm, ?_, ?_⟩
  · obtain ⟨x, hx, hwho, -, hsem⟩ := entry_of_event hrun hpeek
    obtain ⟨c, hc, -, hpay⟩ := peekLoginPayload_answer hsem
    exact ⟨x, hx, hwho, c, hc, hpay⟩
  · obtain ⟨x, hx, hwho, -, hsem⟩ := entry_of_event hrun hlist
    obtain ⟨y, hy, hywho, -, hsem'⟩ := entry_of_event hrun hfin
    obtain ⟨c, hc, hexp, hver⟩ := finishLogin_answer hsem'
    refine ⟨x, hx, y, hy, hwho, hywho, c, _, cred, ?_, hc, hexp, hver⟩
    rw [listWebAuthn_answer hsem]

/-- A `Login` that has both lookups behind it, neither showing a row, has not
seen the owner's rows. -/
theorem not_see_of_blind (hrun : Run (sem P) c₀ tr c) {i : ι} {owner : String}
    (hb : Blind owner (proj i tr)) :
    ∃ a x b y d, tr = a ++ x :: b ++ y :: d ∧ x.who = i ∧ y.who = i ∧ x.op = .getTwoFA owner ∧
      y.op = .countWebAuthn owner ∧ ¬ SeesTwoFA P owner x ∧ ¬ SeesPasskeys P owner y := by
  obtain ⟨h₁, r₁, r₂, h₂, hproj, hr₁, hr₂⟩ := hb
  obtain ⟨tr₁, tr₂, rfl, -, htr₂⟩ := proj_eq_append hproj
  obtain ⟨a, x, b, rfl, -, hxwho, hxev, hb⟩ := proj_eq_cons htr₂
  obtain ⟨b', y, d, rfl, -, hywho, hyev, -⟩ := proj_eq_cons hb
  have hxsem := hrun.sem_of_mem (e := x) (by simp)
  have hysem := hrun.sem_of_mem (e := y) (by simp)
  obtain ⟨xwho, xop, xans, xpre, xpost⟩ := x
  obtain ⟨ywho, yop, yans, ypre, ypost⟩ := y
  cases hxev
  cases hyev
  refine ⟨tr₁ ++ a, _, b', _, d, by simp, hxwho, hywho, rfl, rfl, ?_, ?_⟩
  · rintro ⟨⟨t, ht⟩, hsome⟩
    cases ht
    have hrow := getTwoFA_answer hxsem
    rw [show t = none from hr₁, World.getTwoFA] at hrow
    rw [Option.map_eq_none_iff.mp hrow.symm] at hsome
    cases hsome
  · rintro ⟨⟨n, hn⟩, hne⟩
    cases hn
    have hcount := countWebAuthn_answer hysem
    rw [show n = 0 from hr₂] at hcount
    exact hne (List.eq_nil_of_length_eq_zero hcount.symm)

end Semantics

/-- A session was created on the grounds its request had before. -/
theorem grounds_of_sessionCreate {P : Params} {reqs : ι → Request} {w : World}
    {tr pre post : List (Entry ι World Op Ans)} {e : Entry ι World Op Ans}
    {c : Conf ι World Op Ans Resp} {sess : Session}
    (hrun : Run (sem P) (start P reqs w) tr c) (htr : tr = pre ++ e :: post)
    (hsess : createdSession e.event = some sess) :
    ∃ c₁, Run (sem P) (start P reqs w) pre c₁ ∧
      Grounds P (reqs e.who) sess.email (proj e.who pre) := by
  obtain ⟨s, dek, hev⟩ := createdSession_eq_some.mp hsess
  obtain ⟨c₁, hpre, -, ⟨k, hk⟩, hsem⟩ := hrun.cut htr
  obtain ⟨who, op, ans, epre, epost⟩ := e
  cases hev
  refine ⟨c₁, hpre, ?_⟩
  rw [sessionCreate_answer hsem]
  exact ((hpre.along (fun i => pathRule_prog P (reqs i)) hk).session s dek rfl).1

/-- **The second-factor gate holds** in every run, over any number of requests
and with any storage call failing, in which every `Login` of an owner with a
second factor sees a row of the owner with one of its lookups. -/
theorem secondFactorGate_of_lookupsSee {P : Params} {reqs : ι → Request} {w : World}
    {tr : List (Entry ι World Op Ans)} {c : Conf ι World Op Ans Resp}
    (hrun : Run (sem P) (start P reqs w) tr c) (hsee : LookupsSee P reqs tr) :
    SecondFactorGate P reqs tr := by
  intro pre e post sess htr hsess hfactor
  obtain ⟨c₁, hpre, hgrounds⟩ := grounds_of_sessionCreate hrun htr hsess
  rcases hreq : reqs e.who with ⟨ip, body⟩ | ⟨ip, err | r⟩ | _ | ⟨ip, cid, a⟩ | _ | _ | _ | _ | _ | _ <;>
    rw [hreq] at hgrounds
  case login =>
    obtain ⟨a, x, b, y, d, rfl, hx, hy, hxop, hyop, hnx, hny⟩ := not_see_of_blind hpre hgrounds
    have hsplit : tr = a ++ x :: b ++ y :: (d ++ e :: post) := by
      rw [htr]
      simp
    rcases hsee a x b y _ ip body sess.email hsplit (hx ▸ hreq) (hy.trans hx.symm) hxop hyop
      (fun z hz hzx => hfactor z hz (hzx.trans hx)) with hsees | hsees
    · exact absurd hsees hnx
    · exact absurd hsees hny
  case verify2FA.ok => exact presented_of_accepted hpre hgrounds
  case webAuthnLoginVerify => exact presented_of_verified hpre hgrounds
  all_goals exact absurd hgrounds id

/-! ## The gate's two sides, run -/

/-- An owner with a TOTP row. -/
def enrolled : World :=
  { World.empty with
    twoFA := Function.update (fun _ => none) "a@x"
      (some ⟨"a@x", .plain "123456", ["backup"], some 0⟩) }

/-- A password login of that owner. -/
def passwordLogin : Request :=
  .login "ip" (.ok { email := "a@x", password := "pw", imapHost := "imap", smtpHost := "smtp" })

/-- A login with its second step: `false` logs in with the password, `true`
answers the challenge with a code. -/
def twoSteps : Bool → Request
  | false => passwordLogin
  | true => .verify2FA "ip" (.ok ⟨"u", "123456"⟩)

/-- The two steps run one after the other. -/
def verifiedRun : List (Entry Bool World Op Ans) × Conf Bool World Op Ans Resp :=
  runFaulty .sample (fun _ => false) (List.replicate 10 false ++ List.replicate 30 true) twoSteps
    enrolled

/-- A two-factor lookup that is answered sees a row. -/
def seesRow {ι : Type} (e : Entry ι World Op Ans) : Bool :=
  match e.event with
  | ⟨.getTwoFA owner, .ok _⟩ => (e.pre.twoFA (Params.sample.ownerID owner)).isSome
  | ⟨.getTwoFA _, .error _⟩ => false
  | _ => true

/-- The gate on a run that creates a session. -/
theorem secondFactorGate_verifiedRun :
    (∃ e ∈ verifiedRun.1, ((createdSession e.event).map Session.email) = some "a@x") ∧
      SecondFactorGate .sample twoSteps verifiedRun.1 := by
  refine ⟨by decide +kernel, ?_⟩
  refine secondFactorGate_of_lookupsSee (run_runFaulty _ _ _ _ _) ?_
  intro a x b y c ip body owner htr _ _ hxop _ _
  have hall : ∀ e ∈ verifiedRun.1, seesRow e = true := by decide +kernel
  have hx := hall x (by rw [show verifiedRun.1 = _ from htr]; simp)
  obtain ⟨who, op, ans, pre, post⟩ := x
  obtain rfl : op = .getTwoFA owner := hxop
  rcases ans with e | t
  · cases hx
  · exact .inl ⟨⟨t, rfl⟩, hx⟩

/-- The run of one `Login` whose lookups of `two_fa` fail. -/
def blindRun : List (Entry Unit World Op Ans) × Conf Unit World Op Ans Resp :=
  runFaulty .sample (fun o => o matches .getTwoFA _) (List.replicate 20 ())
    (fun _ => passwordLogin) enrolled

/-- **`Login` fails open**: when the two-factor lookup fails, an enrolled owner
gets a session for the password alone. -/
theorem login_fails_open :
    ∃ (reqs : Unit → Request) (w : World) (tr : List (Entry Unit World Op Ans))
      (c : Conf Unit World Op Ans Resp),
      Run (sem .sample) (start .sample reqs w) tr c ∧ ¬ SecondFactorGate .sample reqs tr := by
  refine ⟨fun _ => passwordLogin, enrolled, blindRun.1, blindRun.2,
    run_runFaulty _ _ _ _ _, fun hgate => ?_⟩
  have hex : ∃ e ∈ blindRun.1, ((createdSession e.event).map Session.email) = some "a@x" := by
    decide +kernel
  obtain ⟨e, he, hsess⟩ := hex
  obtain ⟨sess, hsess, hemail⟩ := Option.map_eq_some_iff.mp hsess
  obtain ⟨pre, post, htr⟩ := List.append_of_mem he
  have hfactor : ∀ x ∈ blindRun.1, HasFactor .sample x.pre "a@x" := by decide +kernel
  exact hgate pre e post sess htr hsess fun x hx _ => hemail ▸ hfactor x hx

end E2Mail.Backend
