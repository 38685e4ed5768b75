import E2Mail.Backend.BackupCode

/-!
# Guesses at one challenge

`Verify2FA` reads the challenge, evaluates the code and then counts a wrong code or
removes the challenge, in separate calls. Requests that have all read the challenge before
the first of them is counted are not held back by the count.

* `Limited` — five wrong codes at most, nothing after them, and one session;
* `OneByOne` — nobody reads the challenge while another is at it;
* `limited_of_oneByOne` — then the guesses are limited.
-/

namespace E2Mail.Backend

open Lib

variable {ι : Type} [DecidableEq ι]

/-! ## The property -/

/-- The call validates a code. -/
def Op.evaluates : Op → Bool
  | validateCode _ _ => true
  | _ => false

/-- After `h` a wrong code is evaluated: it is no TOTP code, and no backup code of the row that
was looked up. -/
def WrongCode (P : Params) (h : List (Event Op Ans)) (v : Event Op Ans) : Prop :=
  ∃ secret code owner t, v = ⟨.validateCode secret code, false⟩ ∧
    ⟨.getTwoFA owner, .ok (some t)⟩ ∈ h ∧ validateBackupCode P code t.backupHashes = none

/-- A wrong code has been evaluated. -/
def HasGuessed (P : Params) (h : List (Event Op Ans)) : Prop :=
  ∃ h₁ v h₂, h = h₁ ++ v :: h₂ ∧ WrongCode P h₁ v

/-- A `Verify2FA` of the challenge, with whatever code; or a step of the environment. -/
def Presents (challenge : String) (req : Request) : Prop :=
  (∃ ip r, req = .verify2FA ip (.ok r) ∧ r.challenge = challenge) ∨ ∃ step, req = .env step

/-- **The guesses are limited.** -/
structure Limited (P : Params) (tr : List (Entry ι World Op Ans)) : Prop where
  /-- a request evaluates one code -/
  once : ((tr.filter fun e => e.op.evaluates).map Entry.who).Nodup
  /-- wrong codes are evaluated at most so often -/
  wrong : ∀ is : List ι, is.Nodup → (∀ i ∈ is, HasGuessed P (proj i tr)) →
    is.length ≤ pendingMaxAttempts
  /-- and no code after so many -/
  after : ∀ pre e post, tr = pre ++ e :: post → e.op.evaluates = true →
    ∀ is : List ι, is.Nodup → (∀ i ∈ is, HasGuessed P (proj i pre)) → is.length < pendingMaxAttempts
  /-- one session is created -/
  session : ∀ es : List (Entry ι World Op Ans), es.Sublist tr →
    (∀ e ∈ es, (createdSession e.event).isSome = true) → es.length ≤ 1

/-- The request has the challenge. -/
def HasRead (challenge : String) (h : List (Event Op Ans)) : Prop :=
  ∃ pl, ⟨.pendingGet challenge, some pl⟩ ∈ h

/-- The request has counted a wrong code, or removed the challenge. -/
def Closed (challenge : String) (h : List (Event Op Ans)) : Prop :=
  ∃ v ∈ h, v.1 = .pendingMarkFailed challenge ∨ v.1 = .pendingDelete challenge

/-- Nobody reads the challenge while another request that has it is still at it: it has counted
its code, removed the challenge, or answered. -/
def OneByOne (P : Params) (reqs : ι → Request) (w : World) (challenge : String)
    (tr : List (Entry ι World Op Ans)) : Prop :=
  ∀ pre y post c, tr = pre ++ y :: post → Run (sem P) (start P reqs w) pre c →
    y.op = .pendingGet challenge → ∀ i ≠ y.who, HasRead challenge (proj i pre) →
      Closed challenge (proj i pre) ∨ (c.procs i).isRet = true

/-! ## The path of a request -/

/-- A session has been created. -/
def HasSession (h : List (Event Op Ans)) : Prop := ∃ v ∈ h, (createdSession v).isSome = true

/-- What is behind a call of a request that presents the challenge. -/
structure ChallengeRule (P : Params) (challenge : String) (h : List (Event Op Ans)) (o : Op) :
    Prop where
  /-- codes and sessions come between the reading of the challenge and its end -/
  use : o.evaluates = true ∨ o.part = .sessions → HasRead challenge h ∧ ¬Closed challenge h
  once : o.evaluates = true → ∀ v ∈ h, v.1.evaluates = false
  mark : o = .pendingMarkFailed challenge → NoSession h
  delete : o = .pendingDelete challenge → ¬HasGuessed P h
  create : ∀ pl, o ≠ .pendingCreate pl

/-- What a request leaves: a wrong code is counted, and a session has the challenge removed. -/
structure ChallengeEnd (P : Params) (challenge : String) (h : List (Event Op Ans)) : Prop where
  counted : HasGuessed P h → ∃ v ∈ h, v.1 = .pendingMarkFailed challenge
  removed : HasSession h → ∃ v ∈ h, v.1 = .pendingDelete challenge

section Path

variable {P : Params} {challenge : String} {h : List (Event Op Ans)}

theorem hasRead_snoc {v : Event Op Ans} (hr : HasRead challenge h) : HasRead challenge (h ++ [v]) := by
  obtain ⟨pl, hpl⟩ := hr
  exact ⟨pl, List.mem_append_left _ hpl⟩

theorem closed_snoc {v : Event Op Ans} : Closed challenge (h ++ [v]) ↔
    Closed challenge h ∨ v.1 = .pendingMarkFailed challenge ∨ v.1 = .pendingDelete challenge := by
  simp only [Closed, List.mem_append, List.mem_singleton, or_and_right, exists_or, exists_eq_left]

theorem hasSession_snoc {v : Event Op Ans} :
    HasSession (h ++ [v]) ↔ HasSession h ∨ (createdSession v).isSome = true := by
  simp only [HasSession, List.mem_append, List.mem_singleton, or_and_right, exists_or,
    exists_eq_left]

theorem hasGuessed_snoc {v : Event Op Ans} :
    HasGuessed P (h ++ [v]) ↔ HasGuessed P h ∨ WrongCode P h v := by
  constructor
  · rintro ⟨h₁, u, h₂, heq, hu⟩
    obtain rfl | ⟨h₂, z, rfl⟩ := List.eq_nil_or_concat' h₂
    · obtain ⟨rfl, hv⟩ := List.append_inj' heq rfl
      obtain rfl := List.singleton_inj.mp hv
      exact .inr hu
    · rw [← List.cons_append, ← List.append_assoc] at heq
      exact .inl ⟨h₁, u, h₂, (List.append_inj' heq rfl).1, hu⟩
  · rintro (⟨h₁, u, h₂, rfl, hu⟩ | hv)
    · exact ⟨h₁, u, h₂ ++ [v], by simp, hu⟩
    · exact ⟨h, v, [], rfl, hv⟩

theorem evaluates_of_wrongCode {v : Event Op Ans} (hv : WrongCode P h v) :
    v.1.evaluates = true := by
  obtain ⟨secret, code, owner, t, rfl, -⟩ := hv
  rfl

/-- Parts whose calls are neither at the challenge nor codes nor sessions. -/
def Part.aside : Part → Bool
  | pending | sessions | services => false
  | _ => true

theorem part_of_evaluates {o : Op} (h : o.evaluates = true) : o.part = .services := by
  cases o with
  | validateCode secret code => rfl
  | _ => cases h

theorem challengeRule_of_aside {o : Op} (ho : o.part.aside = true) :
    ChallengeRule P challenge h o := by
  refine ⟨?_, ?_, ?_, ?_, ?_⟩
  · rintro (he | he)
    · rw [part_of_evaluates he] at ho
      cases ho
    · rw [he] at ho
      cases ho
  · intro he
    rw [part_of_evaluates he] at ho
    cases ho
  · rintro rfl
    cases ho
  · rintro rfl
    cases ho
  · rintro pl rfl
    cases ho

/-- A program aside keeps what its calls keep. -/
theorem along_aside {α : Type} (ps : List Part) {p : Handler α} {I : List (Event Op Ans) → Prop}
    (hp : Uses ps p) (hps : ps.all Part.aside = true) (hl : Lasting ps.contains I) (hI : I h) :
    Along (ChallengeRule P challenge) (fun h _ => I h) p h :=
  Along.of_only hp hI hl fun _ _ ho _ => challengeRule_of_aside
    (List.all_eq_true.mp hps _ (List.contains_iff_mem.mp ho))

/-- What a request has behind it while its code is not evaluated. -/
structure Asked (challenge : String) (t : TwoFA) (h : List (Event Op Ans)) : Prop where
  read : HasRead challenge h
  unclosed : ¬Closed challenge h
  noSession : NoSession h
  fresh : ∀ v ∈ h, v.1.evaluates = false
  row : ∀ owner t', ⟨.getTwoFA owner, .ok (some t')⟩ ∈ h → t' = t

/-- What a request has behind it once its code is accepted. -/
structure Passed (P : Params) (challenge : String) (h : List (Event Op Ans)) : Prop where
  read : HasRead challenge h
  unclosed : ¬Closed challenge h
  noSession : NoSession h
  right : ¬HasGuessed P h

theorem not_hasGuessed {h : List (Event Op Ans)} (hf : ∀ v ∈ h, v.1.evaluates = false) :
    ¬HasGuessed P h := by
  rintro ⟨h₁, v, h₂, rfl, hv⟩
  have hfalse := hf v (by simp)
  rw [evaluates_of_wrongCode hv] at hfalse
  cases hfalse

theorem not_hasSession {h : List (Event Op Ans)} (hno : NoSession h) : ¬HasSession h := by
  rintro ⟨v, hv, hsess⟩
  obtain ⟨sess, hsess⟩ := Option.isSome_iff_exists.mp hsess
  obtain ⟨s, dek, rfl⟩ := createdSession_eq_some.mp hsess
  exact hno _ hv rfl

theorem not_guessed_snoc {o : Op} {r : Ans o} (hno : ¬HasGuessed P h) (ho : o.evaluates = false) :
    ¬HasGuessed P (h ++ [⟨o, r⟩]) := by
  rw [hasGuessed_snoc]
  refine not_or.mpr ⟨hno, fun hv => ?_⟩
  rw [evaluates_of_wrongCode hv] at ho
  cases ho

theorem ended_of_fresh (hfresh : ∀ v ∈ h, v.1.evaluates = false) (hno : NoSession h) :
    ChallengeEnd P challenge h :=
  ⟨fun hg => absurd hg (not_hasGuessed hfresh), fun hs => absurd hs (not_hasSession hno)⟩

theorem fresh_snoc {o : Op} {r : Ans o} (hfresh : ∀ v ∈ h, v.1.evaluates = false)
    (ho : o.evaluates = false) : ∀ v ∈ h ++ [⟨o, r⟩], v.1.evaluates = false := by
  intro v hv
  obtain hv | hv := List.mem_append.mp hv
  · exact hfresh v hv
  · rwa [List.mem_singleton.mp hv]

theorem aside_not_closes {o : Op} (ho : o.part.aside = true) :
    ¬(o = .pendingMarkFailed challenge ∨ o = .pendingDelete challenge) := by
  rintro (rfl | rfl) <;> cases ho

theorem aside_not_evaluates {o : Op} (ho : o.part.aside = true) : o.evaluates = false := by
  rw [Bool.eq_false_iff]
  intro he
  rw [part_of_evaluates he] at ho
  cases ho

theorem aside_not_sessions {o : Op} (ho : o.part.aside = true) : o.part ≠ .sessions := by
  intro hpart
  rw [hpart] at ho
  cases ho

theorem Passed.snoc {o : Op} {r : Ans o} (hI : Passed P challenge h) (ho : o.part.aside = true) :
    Passed P challenge (h ++ [⟨o, r⟩]) := by
  refine ⟨hasRead_snoc hI.read, ?_,
    hI.noSession.snoc (beq_eq_false_iff_ne.mpr (aside_not_sessions ho)),
    not_guessed_snoc hI.right (aside_not_evaluates ho)⟩
  rw [closed_snoc]
  exact not_or.mpr ⟨hI.unclosed, aside_not_closes ho⟩

theorem Asked.snoc {t : TwoFA} {o : Op} {r : Ans o} (hI : Asked challenge t h)
    (ho : o.part.aside = true) (hrow : o.part ≠ .twoFA) : Asked challenge t (h ++ [⟨o, r⟩]) := by
  refine ⟨hasRead_snoc hI.read, ?_, hI.noSession.snoc (beq_eq_false_iff_ne.mpr (aside_not_sessions ho)),
    ?_, ?_⟩
  · rw [closed_snoc]
    exact not_or.mpr ⟨hI.unclosed, aside_not_closes ho⟩
  · exact fresh_snoc hI.fresh (aside_not_evaluates ho)
  · intro owner t' hmem
    obtain hmem | hmem := List.mem_append.mp hmem
    · exact hI.row owner t' hmem
    · cases List.mem_singleton.mp hmem
      exact absurd rfl hrow

theorem aside_of_contains {ps : List Part} (hps : ps.all Part.aside = true) {o : Op}
    (ho : ps.contains o.part = true) : o.part.aside = true :=
  List.all_eq_true.mp hps _ (List.contains_iff_mem.mp ho)

theorem Passed.lasting {ps : List Part} (hps : ps.all Part.aside = true) :
    Lasting ps.contains (Passed P challenge) :=
  fun _ _ _ ho hI => hI.snoc (aside_of_contains hps ho)

theorem Passed.ended (hI : Passed P challenge h) : ChallengeEnd P challenge h :=
  ⟨fun hg => absurd hg hI.right, fun hs => absurd hs (not_hasSession hI.noSession)⟩

/-- The rule of a program whose calls are aside, once its challenge has come to its end. -/
theorem along_ended {α : Type} (ps : List Part) {p : Handler α} (hp : Uses ps p)
    (hps : ps.all Part.aside = true) (hend : ChallengeEnd P challenge h) :
    Along (ChallengeRule P challenge) (fun h _ => ChallengeEnd P challenge h) p h := by
  refine along_aside ps hp hps ?_ hend
  intro h o r ho hend
  have haside := aside_of_contains hps ho
  refine ⟨fun hg => ?_, fun hs => ?_⟩
  · have hbefore : HasGuessed P h := by
      by_contra hno
      exact not_guessed_snoc hno (aside_not_evaluates haside) hg
    obtain ⟨v, hv, heq⟩ := hend.counted hbefore
    exact ⟨v, List.mem_append_left _ hv, heq⟩
  · obtain hs | hs := hasSession_snoc.mp hs
    · obtain ⟨v, hv, heq⟩ := hend.removed hs
      exact ⟨v, List.mem_append_left _ hv, heq⟩
    · obtain ⟨sess, hsess⟩ := Option.isSome_iff_exists.mp hs
      obtain ⟨s, dek, heq⟩ := createdSession_eq_some.mp hsess
      cases heq
      exact absurd rfl (aside_not_sessions haside)

/-- `completeLogin` creates its session and removes the challenge. -/
theorem challenge_completeLogin (ip : String) (pl : PendingLogin) (hI : Passed P challenge h) :
    Along (ChallengeRule P challenge) (fun h _ => ChallengeEnd P challenge h)
      (completeLogin P ip pl challenge) h := by
  refine along_bind (along_aside _ (uses_resolveCredential _ _) rfl (Passed.lasting rfl) hI)
    fun h r hI => ?_
  rcases r with e | ⟨cred, dek⟩
  · exact hI.ended
  refine along_bind (along_aside _ (uses_maybeMigrateTwoFA P _ dek) rfl (Passed.lasting rfl) hI)
    fun h _ hI => ?_
  refine along_bind (along_aside _ (uses_ensureFirstAccount P _ pl dek) rfl (Passed.lasting rfl) hI)
    fun h r hI => ?_
  rcases r with resp | accounts
  · exact hI.ended
  refine Along.step ⟨fun _ => ⟨hI.read, hI.unclosed⟩, nofun, nofun, nofun, nofun⟩ fun r => ?_
  have hright := fun s (r : Res Session) =>
    not_guessed_snoc (o := .sessionCreate s dek) (r := r) hI.right rfl
  rcases r with e | sess
  · -- no session, and the challenge is still there
    refine ⟨fun hg => absurd hg (hright _ _), fun hs => ?_⟩
    obtain hs | hs := hasSession_snoc.mp hs
    · exact absurd hs (not_hasSession hI.noSession)
    · cases hs
  refine Along.step ⟨nofun, nofun, nofun, fun _ => hright _ _, nofun⟩ fun r => ?_
  refine along_ended [.limiter] ?_ rfl
    ⟨fun hg => absurd hg (not_guessed_snoc (hright _ _) rfl),
      fun _ => ⟨_, List.mem_append_right _ (List.mem_singleton_self _), rfl⟩⟩
  refine Uses.bind (uses_onBothKeys uses_resetFailures _ _) (by decide) fun _ => ?_
  exact Uses.bind (uses_onBothKeys uses_resetFailures _ _) (by decide) fun _ => Uses.pure _

/-- `Verify2FA` from the two-factor row on evaluates one code, and counts it if it is wrong. -/
theorem challenge_verifyCode {ip : String} {req : Verify2FARequest} (pl : PendingLogin) {t : TwoFA}
    (hreq : req.challenge = challenge) (hI : Asked challenge t h)
    (hrow : ∃ owner, ⟨.getTwoFA owner, .ok (some t)⟩ ∈ h) :
    Along (ChallengeRule P challenge) (fun h _ => ChallengeEnd P challenge h)
      (verifyCode P ip req pl t) h := by
  subst hreq
  refine along_bind (along_aside [.users, .random] (uses_totpSecret P _ pl t) rfl
    (I := fun h => Asked req.challenge t h ∧ ∃ owner, ⟨.getTwoFA owner, .ok (some t)⟩ ∈ h) ?_
    ⟨hI, hrow⟩) fun h secret hI => ?_
  · rintro h o r ho ⟨hI, owner, hmem⟩
    refine ⟨hI.snoc (aside_of_contains rfl ho) ?_, owner, List.mem_append_left _ hmem⟩
    intro hpart
    rw [hpart] at ho
    cases ho
  obtain ⟨hI, owner, hmem⟩ := hI
  have hfresh := not_hasGuessed (P := P) hI.fresh
  refine Along.step ⟨fun _ => ⟨hI.read, hI.unclosed⟩, fun _ => hI.fresh, nofun, nofun, nofun⟩
    fun valid => ?_
  have hpassed : ¬WrongCode P h ⟨.validateCode secret (trimSpace req.code), valid⟩ →
      Passed P req.challenge (h ++ [⟨.validateCode secret (trimSpace req.code), valid⟩]) := by
    intro hno
    refine ⟨hasRead_snoc hI.read, ?_, hI.noSession.snoc rfl, ?_⟩
    · rw [closed_snoc]
      exact not_or.mpr ⟨hI.unclosed, by simp⟩
    · rw [hasGuessed_snoc]
      exact not_or.mpr ⟨hfresh, hno⟩
  cases valid with
  | true =>
    refine challenge_completeLogin ip pl (hpassed ?_)
    rintro ⟨_, _, _, _, heq, -⟩
    cases heq
  | false =>
    rw [if_neg Bool.false_ne_true]
    split
    · rename_i idx hidx
      have hI := hpassed (by
        rintro ⟨secret', code', owner', t', heq, hmem', hnone⟩
        cases heq
        rw [hI.row owner' t' hmem', hidx] at hnone
        cases hnone)
      exact Along.step (challengeRule_of_aside rfl) fun r =>
        challenge_completeLogin ip pl (hI.snoc rfl)
    · refine Along.step ⟨nofun, nofun, fun _ => hI.noSession.snoc rfl, nofun, nofun⟩ fun _ => ?_
      refine along_ended [.limiter] ?_ rfl
        ⟨fun _ => ⟨_, List.mem_append_right _ (List.mem_singleton_self _), rfl⟩, fun hs => ?_⟩
      · exact Uses.bind (uses_onBothKeys uses_recordFailure _ _) (List.Subset.refl _)
          fun _ => Uses.pure _
      · obtain hs | hs := hasSession_snoc.mp hs
        · exact absurd hs (not_hasSession (hI.noSession.snoc rfl))
        · cases hs

/-- A request before it has looked at the two-factor row. -/
structure Peeked (challenge : String) (pl? : Option PendingLogin) (h : List (Event Op Ans)) : Prop where
  read : ⟨.pendingGet challenge, pl?⟩ ∈ h
  unclosed : ¬Closed challenge h
  noSession : NoSession h
  fresh : ∀ v ∈ h, v.1.evaluates = false
  noRow : ∀ v ∈ h, v.1.part ≠ .twoFA

theorem challenge_verify2FA (P : Params) (challenge ip : String) (req : Verify2FARequest)
    (hreq : req.challenge = challenge) :
    Along (ChallengeRule P challenge) (fun h _ => ChallengeEnd P challenge h)
      (verify2FA P ip (.ok req)) [] := by
  subst hreq
  unfold verify2FA
  dsimp only
  split
  · exact ended_of_fresh (by simp) noSession_nil
  refine Along.step ⟨nofun, nofun, nofun, nofun, nofun⟩ fun pl? => ?_
  have hpeeked : Peeked req.challenge pl? ([] ++ [⟨.pendingGet req.challenge, pl?⟩]) := by
    refine ⟨by simp, ?_, by simp [NoSession, Op.part], by simp [Op.evaluates], by simp [Op.part]⟩
    rw [closed_snoc]
    rintro (⟨v, hv, -⟩ | h | h)
    · cases hv
    · cases h
    · cases h
  refine along_bind (along_aside [.limiter] (uses_anyBlocked _ _ _ _ _) rfl
    (I := Peeked req.challenge pl?) ?_ hpeeked) fun h b hI => ?_
  · intro h o r ho hI
    have haside := aside_of_contains rfl ho
    refine ⟨List.mem_append_left _ hI.read, ?_,
      hI.noSession.snoc (beq_eq_false_iff_ne.mpr (aside_not_sessions haside)), ?_, ?_⟩
    · rw [closed_snoc]
      exact not_or.mpr ⟨hI.unclosed, aside_not_closes haside⟩
    · exact fresh_snoc hI.fresh (aside_not_evaluates haside)
    · intro v hv
      obtain hv | hv := List.mem_append.mp hv
      · exact hI.noRow v hv
      · rw [List.mem_singleton.mp hv]
        intro hpart
        rw [hpart] at ho
        cases ho
  cases b with
  | true => exact ended_of_fresh hI.fresh hI.noSession
  | false =>
    rcases pl? with _ | pl
    · refine along_ended [.limiter] ?_ rfl (ended_of_fresh hI.fresh hI.noSession)
      exact Uses.bind (uses_onBothKeys uses_recordFailure _ _) (List.Subset.refl _)
        fun _ => Uses.pure _
    refine Along.step (challengeRule_of_aside rfl) fun r => ?_
    have hfresh := fresh_snoc (o := .getTwoFA (P.normalizeEmail pl.email)) (r := r) hI.fresh rfl
    have hno := hI.noSession.snoc (o := .getTwoFA (P.normalizeEmail pl.email)) (r := r) rfl
    rcases r with e | _ | t
    · exact ended_of_fresh hfresh hno
    · refine Along.step ⟨nofun, nofun, nofun, fun _ => not_hasGuessed hfresh, nofun⟩ fun _ => ?_
      exact ended_of_fresh (fresh_snoc hfresh rfl) (hno.snoc rfl)
    · refine challenge_verifyCode pl rfl ⟨hasRead_snoc ⟨pl, hI.read⟩, ?_, hno, hfresh, ?_⟩
        ⟨_, List.mem_append_right _ (List.mem_singleton_self _)⟩
      · rw [closed_snoc]
        exact not_or.mpr ⟨hI.unclosed, aside_not_closes rfl⟩
      · intro owner t' hmem
        obtain hmem | hmem := List.mem_append.mp hmem
        · exact absurd rfl (hI.noRow _ hmem)
        · have hev := List.mem_singleton.mp hmem
          generalize P.normalizeEmail pl.email = email at hev
          cases hev
          rfl

end Path

/-! ## Runs -/

section Runs

variable {P : Params} {reqs : ι → Request} {w : World} {challenge : String}
  {tr : List (Entry ι World Op Ans)} {c : Conf ι World Op Ans Resp}

omit [DecidableEq ι] in
theorem challenge_path (hreqs : ∀ i, Presents challenge (reqs i)) (i : ι) :
    Along (ChallengeRule P challenge) (fun h _ => ChallengeEnd P challenge h)
      ((start P reqs w).procs i) [] := by
  change Along _ _ ((reqs i).prog P) []
  obtain ⟨ip, r, hreq, hchallenge⟩ | ⟨step, hreq⟩ := hreqs i
  · rw [hreq]
    exact challenge_verify2FA P challenge ip r hchallenge
  · rw [hreq]
    have haside : step.op.part.aside = true := by cases step <;> rfl
    refine Along.step (challengeRule_of_aside haside) fun r => ?_
    exact ended_of_fresh (fresh_snoc (by simp) (aside_not_evaluates haside))
      (noSession_nil.snoc (beq_eq_false_iff_ne.mpr (aside_not_sessions haside)))

/-- What a call of the run has behind it. -/
theorem challenge_rule (hreqs : ∀ i, Presents challenge (reqs i))
    (hrun : Run (sem P) (start P reqs w) tr c) {i : ι} {h₁ h₂ : List (Event Op Ans)}
    {v : Event Op Ans} (hh : proj i tr = h₁ ++ v :: h₂) : ChallengeRule P challenge h₁ v.1 :=
  (challenge_path hreqs i).rule (hrun.path i) hh

/-- A wrong code is never followed or preceded by the removal of the challenge. -/
theorem not_deleted_of_guessed (hreqs : ∀ i, Presents challenge (reqs i))
    (hrun : Run (sem P) (start P reqs w) tr c) {i : ι} (hg : HasGuessed P (proj i tr)) :
    ∀ v ∈ proj i tr, v.1 ≠ .pendingDelete challenge := by
  intro z hz hop
  obtain ⟨h₁, v, h₂, hh, hv⟩ := hg
  obtain ⟨g₁, g₂, hz⟩ := List.append_of_mem hz
  have hne : v ≠ z := by
    rintro rfl
    have heval := evaluates_of_wrongCode hv
    rw [hop] at heval
    cases heval
  obtain ⟨m, rfl, -⟩ | ⟨m, rfl, -⟩ := two_cuts (hh.symm.trans hz) hne
  · exact (challenge_rule hreqs hrun hz).delete hop ⟨h₁, v, m, rfl, hv⟩
  · exact ((challenge_rule hreqs hrun hh).use (.inl (evaluates_of_wrongCode hv))).2
      ⟨z, by simp, .inr hop⟩

/-- A session is never followed or preceded by the counting of a wrong code. -/
theorem not_marked_of_session (hreqs : ∀ i, Presents challenge (reqs i))
    (hrun : Run (sem P) (start P reqs w) tr c) {i : ι} (hs : HasSession (proj i tr)) :
    ∀ v ∈ proj i tr, v.1 ≠ .pendingMarkFailed challenge := by
  intro z hz hop
  obtain ⟨v, hv, hsess⟩ := hs
  obtain ⟨sess, hsess⟩ := Option.isSome_iff_exists.mp hsess
  obtain ⟨s, dek, rfl⟩ := createdSession_eq_some.mp hsess
  obtain ⟨h₁, h₂, hh⟩ := List.append_of_mem hv
  obtain ⟨g₁, g₂, hz⟩ := List.append_of_mem hz
  have hne : (⟨.sessionCreate s dek, .ok sess⟩ : Event Op Ans) ≠ z := by
    rintro rfl
    cases hop
  obtain ⟨m, rfl, -⟩ | ⟨m, rfl, -⟩ := two_cuts (hh.symm.trans hz) hne
  · exact (challenge_rule hreqs hrun hz).mark hop ⟨.sessionCreate s dek, .ok sess⟩ (by simp) rfl
  · exact ((challenge_rule hreqs hrun hh).use (.inr rfl)).2 ⟨z, by simp, .inl hop⟩

/-- The request is done with the challenge. -/
def Done (P : Params) (challenge : String) (h : List (Event Op Ans)) : Prop :=
  Closed challenge h ∨ ChallengeEnd P challenge h

/-- Somebody who still has a code to evaluate or a session to create keeps the others from
reading the challenge. -/
theorem not_read_of_use
    (hrun : Run (sem P) (start P reqs w) tr c) (hone : OneByOne P reqs w challenge tr)
    {p q post : List (Entry ι World Op Ans)} {y e : Entry ι World Op Ans}
    (htr : tr = p ++ y :: (q ++ e :: post)) (hwho : e.who ≠ y.who)
    (hread : HasRead challenge (proj e.who p))
    (hopen : ¬Closed challenge (proj e.who p)) : y.op ≠ .pendingGet challenge := by
  intro hget
  have hsplit : tr = p ++ (y :: (q ++ e :: post)) := htr
  obtain ⟨c₁, hp, hrest⟩ := hrun.split hsplit
  obtain hclosed | hret := hone p y _ c₁ htr hp hget e.who hwho hread
  · exact hopen hclosed
  · obtain ⟨a, ha⟩ := Prog.isRet_iff.mp hret
    have hnone := hrest.finished ha
    have hmem : e.event ∈ proj e.who (y :: (q ++ e :: post)) :=
      mem_proj.mpr ⟨e, by simp, rfl, rfl⟩
    rw [hnone] at hmem
    cases hmem

/-! ## The count -/

/-- The call counts a wrong code of the challenge. -/
def Op.marks (challenge : String) : Op → Bool
  | pendingMarkFailed id => id = challenge
  | _ => false

theorem marks_iff {o : Op} : o.marks challenge = true ↔ o = .pendingMarkFailed challenge := by
  cases o <;> simp [Op.marks]

/-- While the challenge is stored it has been marked fewer times than allowed, and never
removed. -/
structure MarksCounted (challenge : String) (tr : List (Entry ι World Op Ans)) (w : World) : Prop where
  attempts : ∀ pl, w.pending challenge = some pl →
    (tr.countP fun e => e.op.marks challenge) ≤ pl.failedAttempts
  marks : (w.pending challenge).isSome = true →
    (tr.countP fun e => e.op.marks challenge) < pendingMaxAttempts
  kept : (w.pending challenge).isSome = true → ∀ e ∈ tr, e.op ≠ .pendingDelete challenge

omit [DecidableEq ι] in
theorem MarksCounted.gone {w : World} (h : w.pending challenge = none) : MarksCounted challenge tr w := by
  constructor <;> simp [h]

omit [DecidableEq ι] in
/-- A call that leaves the challenge as it was and is neither mark nor removal. -/
theorem MarksCounted.same {e : Entry ι World Op Ans} (h : MarksCounted challenge tr e.pre)
    (hsame : e.post.pending challenge = e.pre.pending challenge)
    (hmark : e.op.marks challenge = false) (hdelete : e.op ≠ .pendingDelete challenge) :
    MarksCounted challenge (tr ++ [e]) e.post := by
  have hcount : ((tr ++ [e]).countP fun e => e.op.marks challenge) =
      tr.countP fun e => e.op.marks challenge := by
    simp [List.countP_append, hmark]
  constructor
  · rw [hsame, hcount]
    exact h.attempts
  · rw [hsame, hcount]
    exact h.marks
  · intro hsome x hx
    rw [hsame] at hsome
    obtain hx | hx := List.mem_append.mp hx
    · exact h.kept hsome x hx
    · rwa [List.mem_singleton.mp hx]

/-- What a read leaves of an entry: all of it, or nothing if it has expired. -/
theorem pendingGet_pending (id : String) (w : World) :
    (w.pendingGet id).2.pending = w.pending ∨
      (w.pendingGet id).2.pending = Function.update w.pending id none := by
  unfold World.pendingGet
  split
  · exact .inl rfl
  · split
    · exact .inr rfl
    · exact .inl rfl

theorem pendingMarkFailed_of_ne {id : String} (hid : id ≠ challenge) (w : World) :
    (w.pendingMarkFailed id).pending challenge = w.pending challenge := by
  unfold World.pendingMarkFailed
  split
  · rfl
  · exact Function.update_of_ne (Ne.symm hid) _ _

omit [DecidableEq ι] in
/-- A mark of the challenge is counted by the entry, or removes it. -/
theorem MarksCounted.marked {i : ι} {w : World} (h : MarksCounted challenge tr w) :
    MarksCounted challenge (tr ++ [⟨i, .pendingMarkFailed challenge, (), w, w.pendingMarkFailed challenge⟩])
      (w.pendingMarkFailed challenge) := by
  rcases hpl : w.pending challenge with _ | pl
  · refine MarksCounted.gone ?_
    simp [World.pendingMarkFailed, hpl]
  have hafter : (w.pendingMarkFailed challenge).pending challenge =
      if pendingMaxAttempts ≤ pl.failedAttempts + 1 then none
      else some { pl with failedAttempts := pl.failedAttempts + 1 } := by
    simp [World.pendingMarkFailed, hpl]
  by_cases hmax : pendingMaxAttempts ≤ pl.failedAttempts + 1
  · exact MarksCounted.gone (by rw [hafter, if_pos hmax])
  rw [if_neg hmax] at hafter
  have hold := h.attempts pl hpl
  constructor
  · intro pl' hpl'
    obtain rfl := Option.some.inj (hafter.symm.trans hpl')
    simpa [List.countP_append, List.countP_singleton, Op.marks] using hold
  · intro _
    rw [List.countP_append, List.countP_singleton, if_pos (by simp [Op.marks])]
    omega
  · intro _ x hx
    obtain hx | hx := List.mem_append.mp hx
    · exact h.kept (by simp [hpl]) x hx
    · rw [List.mem_singleton.mp hx]
      simp

/-- **The count is kept** by every call of the run. -/
theorem challenge_counted (hreqs : ∀ i, Presents challenge (reqs i))
    (hrun : Run (sem P) (start P reqs w) tr c) : MarksCounted challenge tr c.state := by
  refine hrun.invariant (I := MarksCounted challenge) ?_ ?_
  · constructor <;> simp [pendingMaxAttempts]
  rintro tr c ⟨i, o, r, w, w'⟩ hrun rfl ⟨k, hk⟩ hsem hI
  have hrule := hrun.along (challenge_path hreqs) hk
  dsimp only at hk hsem hI hrule ⊢
  by_cases hpart : o.part = .pending
  case neg =>
    refine hI.same (congrFun ((sem_frame hsem).pending hpart) _) ?_ ?_
    · rw [Bool.eq_false_iff, ne_eq, marks_iff]
      rintro rfl
      exact hpart rfl
    · rintro rfl
      exact hpart rfl
  cases o with
  | pendingCreate pl => exact absurd rfl (hrule.create pl)
  | pendingGet id =>
    obtain ⟨-, rfl⟩ := sem_answer hsem fun _ => nofun
    obtain hsame | hgone := pendingGet_pending id c.state
    · exact hI.same (congrFun hsame _) rfl (by simp)
    · by_cases hid : id = challenge
      · refine MarksCounted.gone ?_
        subst hid
        rw [show (exec P (.pendingGet id) c.state).2.pending = _ from hgone, Function.update_self]
      · refine hI.same ?_ rfl (by simp)
        exact (congrFun hgone _).trans (Function.update_of_ne (Ne.symm hid) _ _)
  | pendingMarkFailed id =>
    obtain ⟨-, rfl⟩ := sem_answer hsem fun _ => nofun
    by_cases hid : id = challenge
    · subst hid
      exact hI.marked
    · refine hI.same (pendingMarkFailed_of_ne hid _) (by simp [Op.marks, hid]) (by simp)
  | pendingDelete id =>
    obtain ⟨-, rfl⟩ := sem_answer hsem fun _ => nofun
    by_cases hid : id = challenge
    · subst hid
      exact MarksCounted.gone (Function.update_self ..)
    · refine hI.same (Function.update_of_ne (Ne.symm hid) _ _) rfl ?_
      rintro ⟨⟩
      exact hid rfl
  | _ => cases hpart

/-! ## One by one -/

/-- The call evaluates a code or creates a session. -/
def Op.isUse (o : Op) : Prop := o.evaluates = true ∨ o.part = .sessions

theorem closed_mono {h h' : List (Event Op Ans)} (hc : Closed challenge h) :
    Closed challenge (h ++ h') := by
  obtain ⟨v, hv, hop⟩ := hc
  exact ⟨v, List.mem_append_left _ hv, hop⟩

/-- A wrong code in a history is an entry of the run. -/
theorem hasGuessed_proj {i : ι} : HasGuessed P (proj i tr) ↔
    ∃ a x b, tr = a ++ x :: b ∧ x.who = i ∧ WrongCode P (proj i a) x.event := by
  constructor
  · rintro ⟨h₁, v, h₂, hh, hv⟩
    obtain ⟨tr₁, tr₂, rfl, rfl, htr₂⟩ := proj_eq_append hh
    obtain ⟨a, x, b, rfl, ha, hwho, rfl, -⟩ := proj_eq_cons htr₂
    refine ⟨tr₁ ++ a, x, b, by simp, hwho, ?_⟩
    rwa [proj_append, ha, List.append_nil]
  · rintro ⟨a, x, b, rfl, rfl, hv⟩
    exact ⟨proj x.who a, x.event, proj x.who b, by simp [proj, List.filter_append], hv⟩

theorem proj_cut (a b : List (Entry ι World Op Ans)) (x : Entry ι World Op Ans) :
    proj x.who (a ++ x :: b) = proj x.who a ++ x.event :: proj x.who b := by
  simp [proj, List.filter_append]

/-- **Whoever reads finds the others done.** Before a code is evaluated or a session created, its
request has read the stored challenge; whoever has used it by then had done so before that
reading, and was done with it. -/
theorem done_at_read (hreqs : ∀ i, Presents challenge (reqs i))
    (hrun : Run (sem P) (start P reqs w) tr c) (hone : OneByOne P reqs w challenge tr)
    {pre post : List (Entry ι World Op Ans)} {e : Entry ι World Op Ans}
    (htr : tr = pre ++ e :: post) (he : e.op.isUse) :
    ∃ p g q, pre = p ++ g :: q ∧ (∃ c₁, Run (sem P) (start P reqs w) p c₁) ∧
      (p.countP fun x => x.op.marks challenge) < pendingMaxAttempts ∧
      (∀ x ∈ p, x.op ≠ .pendingDelete challenge) ∧
      ∀ a x b, pre = a ++ x :: b → x.op.isUse → x.who ≠ e.who → ∃ m, p = a ++ x :: m ∧
        (Closed challenge (proj x.who p) ∨ ChallengeEnd P challenge (proj x.who p)) := by
  have hproj : proj e.who tr = proj e.who pre ++ e.event :: proj e.who post := by
    rw [htr, proj_cut]
  obtain ⟨⟨pl, hread⟩, hopen⟩ := (challenge_rule hreqs hrun hproj).use he
  obtain ⟨g, hg, hwho, hev⟩ := mem_proj.mp hread
  obtain ⟨p, q, rfl⟩ := List.append_of_mem hg
  have hcut : tr = p ++ g :: (q ++ e :: post) := by
    rw [htr]
    simp
  obtain ⟨c₁, hp, hstate, -, hsem⟩ := hrun.cut hcut
  have hgop : g.op = .pendingGet challenge := congrArg Sigma.fst hev
  -- the count at the reading
  have hsome : (c₁.state.pending challenge).isSome = true := by
    obtain ⟨who, op, ans, gpre, gpost⟩ := g
    cases hev
    rw [hstate, (pendingGet_answer hsem).1]
    rfl
  have hcount := challenge_counted hreqs hp
  refine ⟨p, g, q, rfl, ⟨c₁, hp⟩, hcount.marks hsome, hcount.kept hsome, ?_⟩
  intro a x b hx huse hne
  have hxproj : proj x.who tr = proj x.who a ++ x.event :: proj x.who (b ++ e :: post) := by
    rw [htr, hx, ← proj_cut]
    simp
  obtain ⟨⟨pl', hxread⟩, hxopen⟩ := (challenge_rule hreqs hrun hxproj).use huse
  have hgx : g ≠ x := by
    rintro rfl
    rw [hgop] at huse
    obtain huse | huse := huse <;> cases huse
  obtain ⟨m, rfl, -⟩ | ⟨m, rfl, -⟩ := two_cuts hx hgx
  · -- used after the reading: one of the two has read while the other was at it
    exfalso
    obtain ⟨y, hy, hywho, hyev⟩ := mem_proj.mp hxread
    obtain ⟨q₁, q₂, hyq⟩ := List.append_of_mem hy
    have hgy : g ≠ y := by
      rintro rfl
      exact hne (hywho.symm.trans hwho)
    obtain ⟨m', rfl, -⟩ | ⟨m', rfl, -⟩ := two_cuts hyq hgy
    · have hcut : tr = (p ++ g :: m') ++ y :: (q₂ ++ x :: b ++ e :: post) := by
        rw [htr, hx, hyq]
        simp
      refine not_read_of_use hrun hone hcut ?_ ?_ ?_ (congrArg Sigma.fst hyev)
      · exact fun h => hne (hywho.symm.trans h.symm)
      · exact ⟨pl, mem_proj.mpr ⟨g, by simp, hwho, hev⟩⟩
      · intro hclosed
        refine hopen ?_
        rw [hx, hyq, List.append_assoc, proj_append]
        exact closed_mono hclosed
    · have hcut : tr = (q₁ ++ y :: m') ++ g :: (m ++ x :: (b ++ e :: post)) := by
        rw [htr, hx]
        simp
      refine not_read_of_use hrun hone hcut ?_ ?_ ?_ hgop
      · exact fun h => hne (h.trans hwho)
      · exact ⟨pl', mem_proj.mpr ⟨y, by simp, hywho, hyev⟩⟩
      · intro hclosed
        refine hxopen ?_
        rw [proj_append]
        exact closed_mono hclosed
  · refine ⟨m, rfl, ?_⟩
    have hread : HasRead challenge (proj x.who (a ++ x :: m)) := by
      rw [proj_append]
      exact ⟨pl', List.mem_append_left _ hxread⟩
    obtain hclosed | hret := hone _ g _ c₁ hcut hp hgop x.who (fun h => hne (h.trans hwho)) hread
    · exact .inl hclosed
    · obtain ⟨resp, hresp⟩ := Prog.isRet_iff.mp hret
      exact .inr (hp.along_ret (challenge_path hreqs) hresp)

/-- Whoever has evaluated a wrong code before another uses the challenge has counted it. -/
theorem limited_after (hreqs : ∀ i, Presents challenge (reqs i))
    (hrun : Run (sem P) (start P reqs w) tr c) (hone : OneByOne P reqs w challenge tr)
    {pre post : List (Entry ι World Op Ans)} {e : Entry ι World Op Ans}
    (htr : tr = pre ++ e :: post) (he : e.op.evaluates = true) (is : List ι) (hnodup : is.Nodup)
    (his : ∀ i ∈ is, HasGuessed P (proj i pre)) : is.length < pendingMaxAttempts := by
  obtain ⟨p, g, q, rfl, ⟨c₁, hp⟩, hcount, hkept, hdone⟩ :=
    done_at_read hreqs hrun hone htr (.inl he)
  have hmarked : is ⊆ (p.filter fun x => x.op.marks challenge).map Entry.who := by
    intro i hi
    obtain ⟨a, x, b, hx, rfl, hwrong⟩ := hasGuessed_proj.mp (his i hi)
    have hxeval := evaluates_of_wrongCode hwrong
    have hne : x.who ≠ e.who := by
      intro hsame
      have hproj : proj e.who tr = proj e.who (p ++ g :: q) ++ e.event :: proj e.who post := by
        rw [htr, proj_cut]
      have honce := (challenge_rule hreqs hrun hproj).once he x.event
        (mem_proj.mpr ⟨x, by rw [hx]; simp, hsame, rfl⟩)
      rw [hxeval] at honce
      cases honce
    obtain ⟨m, rfl, hclosed⟩ := hdone a x b hx (.inl hxeval) hne
    have hguessed : HasGuessed P (proj x.who (a ++ x :: m)) :=
      hasGuessed_proj.mpr ⟨a, x, m, rfl, rfl, hwrong⟩
    have hmark : ∃ v ∈ proj x.who (a ++ x :: m), v.1 = .pendingMarkFailed challenge := by
      obtain ⟨v, hv, hop | hop⟩ | hend := hclosed
      · exact ⟨v, hv, hop⟩
      · exact absurd hop (not_deleted_of_guessed hreqs hp hguessed v hv)
      · exact hend.counted hguessed
    obtain ⟨v, hv, hop⟩ := hmark
    obtain ⟨y, hy, hywho, rfl⟩ := mem_proj.mp hv
    exact List.mem_map.mpr ⟨y, List.mem_filter.mpr ⟨hy, marks_iff.mpr hop⟩, hywho⟩
  have hlen := (List.subperm_of_subset hnodup hmarked).length_le
  rw [List.length_map, ← List.countP_eq_length_filter] at hlen
  exact Nat.lt_of_le_of_lt hlen hcount

/-- At most so many wrong codes are evaluated: all but the last were before it. -/
theorem limited_wrong (hreqs : ∀ i, Presents challenge (reqs i))
    (hrun : Run (sem P) (start P reqs w) tr c) (hone : OneByOne P reqs w challenge tr)
    (is : List ι) (hnodup : is.Nodup) (his : ∀ i ∈ is, HasGuessed P (proj i tr)) :
    is.length ≤ pendingMaxAttempts := by
  rcases is with _ | ⟨i₀, is⟩
  · exact Nat.zero_le _
  generalize hl : i₀ :: is = l at *
  have hsome : ∃ e ∈ tr, e.op.evaluates = true ∧ e.who ∈ l := by
    have hi₀ : i₀ ∈ l := by simp [← hl]
    obtain ⟨a, x, b, rfl, hwho, hwrong⟩ := hasGuessed_proj.mp (his i₀ hi₀)
    exact ⟨x, by simp, evaluates_of_wrongCode hwrong, hwho ▸ hi₀⟩
  obtain ⟨pre, e, post, htr, ⟨heval, hmem⟩, hlast⟩ := exists_last hsome
  have hbefore : ∀ i ∈ l.erase e.who, HasGuessed P (proj i pre) := by
    intro i hi
    obtain ⟨hne, hi⟩ := hnodup.mem_erase_iff.mp hi
    obtain ⟨a, x, b, hx, rfl, hwrong⟩ := hasGuessed_proj.mp (his i hi)
    have hxe : x ≠ e := by
      rintro rfl
      exact hne rfl
    obtain ⟨m, rfl, -⟩ | ⟨m, -, rfl⟩ := two_cuts (hx.symm.trans htr) hxe
    · exact hasGuessed_proj.mpr ⟨a, x, m, rfl, rfl, hwrong⟩
    · exact absurd ⟨evaluates_of_wrongCode hwrong, hi⟩ (hlast x (by simp))
  have hlt := limited_after hreqs hrun hone htr heval _ (hnodup.erase _) hbefore
  rw [List.length_erase_of_mem hmem] at hlt
  omega

/-- A session removes the challenge before anybody else reads it. -/
theorem limited_session (hreqs : ∀ i, Presents challenge (reqs i))
    (hrun : Run (sem P) (start P reqs w) tr c) (hone : OneByOne P reqs w challenge tr)
    {es : List (Entry ι World Op Ans)} (hsub : es.Sublist tr)
    (hes : ∀ e ∈ es, (createdSession e.event).isSome = true) : es.length ≤ 1 := by
  rcases es with _ | ⟨x, _ | ⟨e, es⟩⟩
  · exact Nat.zero_le _
  · exact Nat.le_refl _
  exfalso
  have hpart : ∀ y : Entry ι World Op Ans, (createdSession y.event).isSome = true →
      y.op.part = .sessions := by
    intro y hy
    obtain ⟨sess, hsess⟩ := Option.isSome_iff_exists.mp hy
    obtain ⟨s, dek, hev⟩ := createdSession_eq_some.mp hsess
    exact congrArg (fun v : Event Op Ans => v.1.part) hev
  have hx := hes x (by simp)
  have he := hes e (by simp)
  -- two requests
  have hpair : [x, e].Sublist tr := ((List.nil_sublist es).cons_cons e |>.cons_cons x).trans hsub
  have hne : x.who ≠ e.who := by
    have hsess := (hpair.filter fun e => e.op.part == .sessions).map Entry.who
    have hnodup := (nodup_sessions hrun).sublist hsess
    simpa [hpart x hx, hpart e he] using hnodup
  obtain ⟨r₁, r₂, rfl, hxr, hr₂⟩ := List.cons_sublist_iff.mp hpair
  obtain ⟨r₃, r₄, rfl⟩ := List.append_of_mem (List.singleton_sublist.mp hr₂)
  obtain ⟨a, b, rfl⟩ := List.append_of_mem hxr
  have htr : a ++ x :: b ++ (r₃ ++ e :: r₄) = (a ++ x :: b ++ r₃) ++ e :: r₄ := by simp
  obtain ⟨p, g, q, hpre, ⟨c₁, hp⟩, -, hkept, hdone⟩ :=
    done_at_read hreqs hrun hone htr (.inr (hpart e he))
  obtain ⟨m, rfl, hclosed⟩ := hdone a x (b ++ r₃) (by simp) (.inr (hpart x hx)) hne
  have hsession : HasSession (proj x.who (a ++ x :: m)) :=
    ⟨x.event, mem_proj.mpr ⟨x, by simp, rfl, rfl⟩, hx⟩
  have hremoved : ∃ v ∈ proj x.who (a ++ x :: m), v.1 = .pendingDelete challenge := by
    obtain ⟨v, hv, hop | hop⟩ | hend := hclosed
    · exact absurd hop (not_marked_of_session hreqs hp hsession v hv)
    · exact ⟨v, hv, hop⟩
    · exact hend.removed hsession
  obtain ⟨v, hv, hop⟩ := hremoved
  obtain ⟨y, hy, -, rfl⟩ := mem_proj.mp hv
  exact hkept y hy hop

/-- **The guesses at a challenge are limited** in every run of requests that present it, any
number of them, in which nobody reads it while another is at it. -/
theorem limited_of_oneByOne (hreqs : ∀ i, Presents challenge (reqs i))
    (hrun : Run (sem P) (start P reqs w) tr c) (hone : OneByOne P reqs w challenge tr) :
    Limited P tr where
  once := hrun.nodup_who (challenge_path hreqs) fun _ _ _ hrule ho v hv => hrule.once ho v hv
  wrong is hnodup his := limited_wrong hreqs hrun hone is hnodup his
  after _ _ _ htr he is hnodup his := limited_after hreqs hrun hone htr he is hnodup his
  session _ hsub hes := limited_session hreqs hrun hone hsub hes

end Runs

/-! ## Runs, one by one and in parallel -/

/-- A wrong code for the challenge, and then the right one. -/
def guessThenCode (right : Bool) : Request :=
  .verify2FA "ip" (.ok ⟨"p1", if right then "123456" else "000000"⟩)

/-- The second request starts when the first has been answered. -/
def oneAfterOther : List (Entry Bool World Op Ans) × Conf Bool World Op Ans Resp :=
  runFaulty .sample (fun _ => false) (List.replicate 20 false ++ List.replicate 30 true)
    guessThenCode challenged

/-- The call has ended the challenge for its request. -/
def Op.closes (challenge : String) : Op → Bool
  | pendingMarkFailed id | pendingDelete id => id = challenge
  | _ => false

theorem Op.eq_of_closes {challenge : String} {op : Op} (h : op.closes challenge = true) :
    op = .pendingMarkFailed challenge ∨ op = .pendingDelete challenge := by
  cases op with
  | pendingMarkFailed id => exact .inl (congrArg Op.pendingMarkFailed (of_decide_eq_true h))
  | pendingDelete id => exact .inr (congrArg Op.pendingDelete (of_decide_eq_true h))
  | _ => cases h

/-- The call reads the challenge. -/
def Op.reads (challenge : String) : Op → Bool
  | pendingGet id => id = challenge
  | _ => false

/-- At each reading in `rest` the others in `past` that have read are done. -/
def turns (challenge : String) :
    List (Entry ι World Op Ans) → List (Entry ι World Op Ans) → Bool
  | _, [] => true
  | past, y :: rest =>
    (!y.op.reads challenge || past.all fun x => x.who = y.who || !x.op.reads challenge ||
      past.any fun z => z.who = x.who && z.op.closes challenge) && turns challenge (past ++ [y]) rest

theorem closed_of_turns {challenge : String} {past pre post : List (Entry ι World Op Ans)}
    {y : Entry ι World Op Ans} (h : turns challenge past (pre ++ y :: post) = true)
    (hy : y.op = .pendingGet challenge) {i : ι} (hi : i ≠ y.who)
    (hread : HasRead challenge (proj i (past ++ pre))) : Closed challenge (proj i (past ++ pre)) := by
  induction pre generalizing past with
  | nil =>
    rw [List.nil_append, turns, hy, Bool.and_eq_true] at h
    obtain ⟨pl, hpl⟩ := hread
    rw [List.append_nil] at hpl ⊢
    obtain ⟨x, hx, rfl, hev⟩ := mem_proj.mp hpl
    have hxop : x.op = .pendingGet challenge := congrArg Sigma.fst hev
    have hall := h.1
    simp only [Op.reads, decide_true, Bool.not_true, Bool.false_or, List.all_eq_true] at hall
    have hxy := hall x hx
    simp only [hi, hxop, decide_false, decide_true, Bool.not_true, Bool.false_or,
      List.any_eq_true, Bool.and_eq_true, decide_eq_true_eq] at hxy
    obtain ⟨z, hz, hwho, hclose⟩ := hxy
    exact ⟨z.event, mem_proj.mpr ⟨z, hz, hwho, rfl⟩, Op.eq_of_closes hclose⟩
  | cons x pre ih =>
    rw [List.cons_append, turns, Bool.and_eq_true] at h
    rw [← List.singleton_append, ← List.append_assoc] at hread ⊢
    exact ih h.2 hread

theorem oneByOne_of_turns {P : Params} {reqs : ι → Request} {w : World} {challenge : String}
    {tr : List (Entry ι World Op Ans)} (h : turns challenge [] tr = true) :
    OneByOne P reqs w challenge tr := by
  rintro pre y post c rfl - hy i hi hread
  exact .inl (closed_of_turns h hy hi hread)

/-- One after the other they are limited, and the second gets its session. -/
theorem limited_oneAfterOther :
    (∃ e ∈ oneAfterOther.1, (createdSession e.event).isSome = true) ∧
      Limited .sample oneAfterOther.1 := by
  refine ⟨by decide +kernel, ?_⟩
  have hreqs : ∀ right, Presents "p1" (guessThenCode right) :=
    fun right => .inl ⟨"ip", _, rfl, rfl⟩
  refine limited_of_oneByOne hreqs (run_runFaulty _ _ _ _ _) (oneByOne_of_turns ?_)
  decide +kernel

/-- The row a lookup has shown. -/
def shownRow : Event Op Ans → Option TwoFA
  | ⟨.getTwoFA _, .ok t⟩ => t
  | _ => none

theorem hasGuessed_of_getElem {P : Params} {h : List (Event Op Ans)} (k : Nat) (code : String)
    (t : TwoFA) (hcode : h[k]?.bind rejectedCode = some code)
    (hrow : some t ∈ (h.take k).map shownRow)
    (hnone : validateBackupCode P code t.backupHashes = none) : HasGuessed P h := by
  obtain ⟨v, hv, hcode⟩ := Option.bind_eq_some_iff.mp hcode
  obtain ⟨secret, rfl⟩ := rejectedCode_eq_some hcode
  obtain ⟨hk, hv⟩ := List.getElem?_eq_some_iff.mp hv
  obtain ⟨⟨o, r⟩, hu, hshown⟩ := List.mem_map.mp hrow
  refine ⟨h.take k, ⟨.validateCode secret code, false⟩, h.drop (k + 1), ?_, ?_⟩
  · rw [← hv, List.getElem_cons_drop, List.take_append_drop]
  cases o with
  | getTwoFA owner =>
    rcases r with e | t'
    · cases hshown
    · obtain rfl : t' = some t := hshown
      exact ⟨secret, code, owner, t, rfl, hu, hnone⟩
  | _ => cases hshown

/-- Six wrong codes, their calls taking turns. -/
def sixGuesses : List (Entry (Fin 6) World Op Ans) × Conf (Fin 6) World Op Ans Resp :=
  runFaulty .sample (fun _ => false) (List.replicate 12 (List.finRange 6)).flatten
    (fun _ => guessThenCode false) challenged

/-- The right code twice, the calls taking turns. -/
def twoCodes : List (Entry Bool World Op Ans) × Conf Bool World Op Ans Resp :=
  runFaulty .sample (fun _ => false) (List.replicate 30 [false, true]).flatten
    (fun _ => guessThenCode true) challenged

/-- **Parallel guesses are not limited**: six wrong codes are evaluated against one challenge, and
one challenge gives two sessions. -/
theorem guesses_overrun :
    Run (sem .sample) (start .sample (fun _ => guessThenCode false) challenged) sixGuesses.1
        sixGuesses.2 ∧
      (∀ i, HasGuessed .sample (proj i sixGuesses.1)) ∧ ¬Limited .sample sixGuesses.1 ∧
    Run (sem .sample) (start .sample (fun _ => guessThenCode true) challenged) twoCodes.1
        twoCodes.2 ∧
      (twoCodes.1.filter fun e => (createdSession e.event).isSome).length = 2 ∧
      ¬Limited .sample twoCodes.1 := by
  have hguessed : ∀ i, HasGuessed .sample (proj i sixGuesses.1) := by
    intro i
    refine hasGuessed_of_getElem 9 "000000"
      ⟨"a@x", .plain "123456", ["backup"], some 0⟩ ?_ ?_ (by decide +kernel)
    · revert i
      decide +kernel
    · revert i
      decide +kernel
  have htwo : (twoCodes.1.filter fun e => (createdSession e.event).isSome).length = 2 := by
    decide +kernel
  refine ⟨run_runFaulty _ _ _ _ _, hguessed, fun h => ?_, run_runFaulty _ _ _ _ _, htwo, fun h => ?_⟩
  · have hle := h.wrong (List.finRange 6) (List.nodup_finRange 6) fun i _ => hguessed i
    simp [pendingMaxAttempts] at hle
  · have hle := h.session _ List.filter_sublist fun e he => (List.mem_filter.mp he).2
    rw [htwo] at hle
    omega

end E2Mail.Backend
