import E2Mail.Backend.BackupCode

/-!
# One data key for an owner

The first login of an owner generates a data key and inserts it, wrapped, into
`users`. Concurrent first logins each generate a key of their own; the primary
key lets one insertion through, and a login whose insertion fails stops before
it has encrypted anything or created a session.

* `Unlocked` — how a login has come by a data key: it has unwrapped the stored
  one, or inserted the one it generated.
* `KeyRule` — a login request uses a data key only after it has come by it so.
* `oneKey` — in every run of logins, every data key that is used for an owner is
  the one in the owner's row of `users`.
-/

namespace E2Mail.Backend

open Lib

variable {ι : Type} [DecidableEq ι]

/-! ## The property -/

/-- The data key a call encrypts with, decrypts with or hands to a session. -/
def Op.dataKey : Op → Option Nat
  | encrypt (.dek d) _ | listAccounts _ d | getAccount _ _ d | createAccount _ d
  | updateAccount _ d | sessionCreate _ d => some d
  | _ => none

/-- The owner a login request acts for, as far as its history tells. -/
def ActsFor (P : Params) : Request → List (Event Op Ans) → String → Prop
  | .login _ (.ok req), _, owner => owner = P.normalizeEmail req.email
  | .verify2FA _ (.ok req), h, owner =>
    ∃ pl, ⟨.pendingGet req.challenge, some pl⟩ ∈ h ∧ owner = P.normalizeEmail pl.email
  | .webAuthnLoginVerify _ _ _, h, owner =>
    ∃ id pl, ⟨.pendingGet id, some pl⟩ ∈ h ∧ owner = P.normalizeEmail pl.email
  | _, _, _ => False

/-- The requests that log somebody in, and the steps of the environment. -/
def Request.isLogin : Request → Bool
  | login _ _ | verify2FA _ _ | webAuthnLoginBegin _ _ | webAuthnLoginVerify _ _ _ | env _ => true
  | _ => false

/-- Every data key used in the run for an owner is the one the owner's row of
`users` wraps in the state `w`; a session is created for the owner of its key. -/
def OneKey (P : Params) (reqs : ι → Request) (tr : List (Entry ι World Op Ans)) (w : World) :
    Prop :=
  ∀ pre e post d, tr = pre ++ e :: post → e.op.dataKey = some d →
    ∃ owner cred, ActsFor P (reqs e.who) (proj e.who pre) owner ∧
      w.users (P.ownerID owner) = some cred ∧ cred.wrappedDEK.body = d ∧
      ∀ s, e.op = .sessionCreate s d → s.email = owner

/-! ## How a login comes by a key -/

/-- The data key `d` of `owner` has been unwrapped from the stored credential,
or inserted. -/
def Unlocked (owner : String) (d : Nat) (h : List (Event Op Ans)) : Prop :=
  (∃ cred password, ⟨.getUserCredential owner, .ok (some cred)⟩ ∈ h ∧
      cred.unwrap password = some d) ∨
    ∃ cred key, ⟨.wrapDEK key d, .ok cred.wrappedDEK⟩ ∈ h ∧ cred.userEmail = owner ∧
      ⟨.createUserCredential cred, .ok ()⟩ ∈ h

/-- A data key is used by who has come by it, and no credential is overwritten. -/
structure KeyRule (P : Params) (req : Request) (h : List (Event Op Ans)) (o : Op) : Prop where
  use : ∀ d, o.dataKey = some d → ∃ owner, ActsFor P req h owner ∧ Unlocked owner d h ∧
    ∀ s, o = .sessionCreate s d → s.email = owner
  keep : ∀ c, o ≠ .updateUserCredential c

section Rule

variable {P : Params} {req : Request} {h : List (Event Op Ans)} {I : List (Event Op Ans) → Prop}

/-- A fact about the history that no call can break. -/
def Grows (I : List (Event Op Ans) → Prop) : Prop := ∀ h v, I h → I (h ++ [v])

theorem Grows.and {J : List (Event Op Ans) → Prop} (hI : Grows I) (hJ : Grows J) :
    Grows fun h => I h ∧ J h :=
  fun h v hIJ => ⟨hI h v hIJ.1, hJ h v hIJ.2⟩

theorem Grows.append (hI : Grows I) (hh : I h) (h' : List (Event Op Ans)) : I (h ++ h') := by
  induction h' generalizing h with
  | nil => rwa [List.append_nil]
  | cons v h' ih =>
    have hv := ih (hI h v hh)
    rwa [List.append_assoc] at hv

theorem grows_actsFor (P : Params) (req : Request) (owner : String) :
    Grows fun h => ActsFor P req h owner := by
  intro h v hacts
  cases req with
  | login ip body =>
    rcases body with e | r
    · exact hacts
    · exact hacts
  | verify2FA ip body =>
    rcases body with e | r
    · exact hacts
    · obtain ⟨pl, hpl, howner⟩ := hacts
      exact ⟨pl, List.mem_append_left _ hpl, howner⟩
  | webAuthnLoginVerify ip ceremonyID assertion =>
    obtain ⟨id, pl, hpl, howner⟩ := hacts
    exact ⟨id, pl, List.mem_append_left _ hpl, howner⟩
  | _ => exact hacts

theorem grows_unlocked (owner : String) (d : Nat) : Grows (Unlocked owner d) := by
  rintro h v (⟨cred, password, hget, hunwrap⟩ | ⟨cred, key, hwrap, howner, hcreate⟩)
  · exact .inl ⟨cred, password, List.mem_append_left _ hget, hunwrap⟩
  · exact .inr ⟨cred, key, List.mem_append_left _ hwrap, howner, List.mem_append_left _ hcreate⟩

/-- Calls the rule says nothing about. -/
def Op.keyless (o : Op) : Bool :=
  o.dataKey.isNone && match o with
    | .updateUserCredential _ => false
    | _ => true

theorem keyRule_of_keyless {o : Op} (ho : o.keyless = true) : KeyRule P req h o := by
  obtain ⟨hkey, hwrite⟩ := Bool.and_eq_true_iff.mp ho
  constructor
  · intro d hd
    rw [hd] at hkey
    cases hkey
  · rintro c rfl
    cases hwrite

/-- The parts whose calls have no key and write no credential. -/
def Part.keyless : Part → Bool
  | random | accounts | sessions | users => false
  | _ => true

theorem keyless_of_part {o : Op} (ho : o.part.keyless = true) : o.keyless = true := by
  cases o <;> first | rfl | cases ho

/-- A program on such parts keeps the rule. -/
theorem along_keyless {α : Type} {ps : List Part} {p : Handler α} (hp : Uses ps p)
    (hps : ps.all Part.keyless = true) (hl : Grows I) (hI : I h) :
    Along (KeyRule P req) (fun h _ => I h) p h := by
  apply Along.of_only hp hI
  · intro h o r _ hI
    exact hl h _ hI
  · intro h o ho _
    exact keyRule_of_keyless
      (keyless_of_part (List.all_eq_true.mp hps _ (List.contains_iff_mem.mp ho)))

/-- The request has come by the key `d` of the owner it acts for. -/
def HoldsKey (P : Params) (req : Request) (owner : String) (d : Nat) (h : List (Event Op Ans)) : Prop :=
  ActsFor P req h owner ∧ Unlocked owner d h

theorem grows_holdsKey (P : Params) (req : Request) (owner : String) (d : Nat) :
    Grows (HoldsKey P req owner d) :=
  (grows_actsFor P req owner).and (grows_unlocked owner d)

/-- Calls that use no key but `d`, create no session and overwrite no credential. -/
def Op.onlyKey (d : Nat) (o : Op) : Prop :=
  (o.dataKey = none ∨ o.dataKey = some d) ∧ o.part ≠ .sessions ∧ ∀ c, o ≠ .updateUserCredential c

/-- A program with the one key, by who has come by it, keeps the rule. -/
theorem along_onlyKey {α : Type} {p : Handler α} {owner : String} {d : Nat}
    (hp : p.Only (Op.onlyKey d)) (hh : HoldsKey P req owner d h) :
    Along (KeyRule P req) (fun h _ => HoldsKey P req owner d h) p h := by
  apply Along.of_only hp hh
  · intro h o r _ hh
    exact grows_holdsKey P req owner d h _ hh
  · rintro h o ⟨hkey, hpart, hkeep⟩ hh
    refine ⟨fun d' hd' => ?_, hkeep⟩
    rcases hkey with hnone | hsome
    · rw [hnone] at hd'
      cases hd'
    · obtain rfl := Option.some.inj (hsome.symm.trans hd')
      refine ⟨owner, hh.1, hh.2, ?_⟩
      rintro s rfl
      exact absurd rfl hpart

theorem onlyKey_of_keyless {d : Nat} {o : Op} (ho : o.keyless = true) (hpart : o.part ≠ .sessions) :
    o.onlyKey d := by
  obtain ⟨hkey, hwrite⟩ := Bool.and_eq_true_iff.mp ho
  refine ⟨.inl (Option.isNone_iff_eq_none.mp hkey), hpart, ?_⟩
  rintro c rfl
  cases hwrite

end Rule

/-! ## The pieces of a login -/

section Pieces

variable {P : Params} {req : Request} {h : List (Event Op Ans)}

theorem onlyKey_encrypt (d : Nat) (s : String) : (Op.encrypt (.dek d) s).onlyKey d := by
  refine ⟨.inr rfl, ?_, ?_⟩
  · rintro ⟨⟩
  · rintro c ⟨⟩

theorem only_encryptAccountPasswords (acc : Account) (d : Nat) :
    (encryptAccountPasswords P acc d).Only (Op.onlyKey d) := by
  apply Prog.Only.step (onlyKey_encrypt d _)
  intro r
  rcases r with e | imapEnc
  · trivial
  apply Prog.Only.step (onlyKey_encrypt d _)
  intro r
  rcases r with e | smtpEnc <;> trivial

theorem only_maybeMigrateTwoFA (ownerEmail : String) (d : Nat) :
    (maybeMigrateTwoFA P ownerEmail d).Only (Op.onlyKey d) := by
  apply Prog.Only.step (onlyKey_of_keyless rfl (by rintro ⟨⟩))
  intro r
  rcases r with e | _ | t
  · trivial
  · trivial
  · dsimp only
    split
    · trivial
    · generalize looksLikeSecret P (P.text t.secret) = plain
      cases plain with
      | false => trivial
      | true =>
        apply Prog.Only.step (onlyKey_encrypt d _)
        intro r
        rcases r with e | enc
        · trivial
        · exact Prog.Only.step (onlyKey_of_keyless rfl (by rintro ⟨⟩)) fun _ => trivial

theorem only_ensureFirstAccount (ownerEmail : String) (pl : PendingLogin) (d : Nat) :
    (ensureFirstAccount P ownerEmail pl d).Only (Op.onlyKey d) := by
  apply Prog.Only.step
  · refine ⟨.inr rfl, ?_, ?_⟩
    · rintro ⟨⟩
    · rintro c ⟨⟩
  intro r
  rcases r with e | accounts
  · trivial
  · dsimp only
    split
    · trivial
    · apply Prog.Only.bind (only_encryptAccountPasswords _ d)
      intro r
      rcases r with e | acc
      · trivial
      apply Prog.Only.step
      · refine ⟨.inr rfl, ?_, ?_⟩
        · rintro ⟨⟩
        · rintro c ⟨⟩
      intro r
      rcases r with e | acc <;> trivial

/-- **`resolveCredential` answers a key it has come by**: the stored one, or the
one it has inserted. -/
theorem along_resolveCredential {owner password : String} (hacts : ActsFor P req h owner) :
    Along (KeyRule P req)
      (fun h r => ActsFor P req h owner ∧ ∀ cred d, r = .ok (cred, d) → Unlocked owner d h)
      (resolveCredential owner password) h := by
  have hgrows := grows_actsFor P req owner
  apply Along.step (keyRule_of_keyless rfl)
  intro r
  have hacts := hgrows h ⟨.getUserCredential owner, r⟩ hacts
  rcases r with e | _ | cred
  · exact ⟨hacts, fun _ _ hr => by cases hr⟩
  · -- the first login: the key is the owner's once the insertion has succeeded
    apply Along.step (keyRule_of_keyless rfl)
    intro r
    have hacts := hgrows _ ⟨.generateSalt, r⟩ hacts
    rcases r with e | salt
    · exact ⟨hacts, fun _ _ hr => by cases hr⟩
    apply Along.step (keyRule_of_keyless rfl)
    intro r
    have hacts := hgrows _ ⟨.generateDEK, r⟩ hacts
    rcases r with e | dek
    · exact ⟨hacts, fun _ _ hr => by cases hr⟩
    apply Along.step (keyRule_of_keyless rfl)
    intro r
    have hacts := hgrows _ ⟨.wrapDEK (.master password salt) dek, r⟩ hacts
    rcases r with e | wrapped
    · exact ⟨hacts, fun _ _ hr => by cases hr⟩
    apply Along.step (keyRule_of_keyless rfl)
    intro r
    have hacts := hgrows _ ⟨.createUserCredential ⟨owner, salt, wrapped⟩, r⟩ hacts
    rcases r with e | ⟨⟩
    · exact ⟨hacts, fun _ _ hr => by cases hr⟩
    · refine ⟨hacts, fun cred d hr => .inr ⟨⟨owner, salt, wrapped⟩, .master password salt, ?_, rfl, ?_⟩⟩
      · cases hr
        simp
      · simp
  · dsimp only
    split
    · exact ⟨hacts, fun _ _ hr => by cases hr⟩
    · rename_i d hunwrap
      refine ⟨hacts, fun cred' d' hr => ?_⟩
      cases hr
      exact .inl ⟨cred, password, by simp, hunwrap⟩

/-- The session both completions create, and what follows it. -/
theorem along_keyedSession {owner : String} {d : Nat} {s : Session} {f : Res Session → Handler Resp}
    (hh : HoldsKey P req owner d h) (hs : s.email = owner)
    (hf : ∀ r, Uses [.pending, .limiter] (f r)) :
    Along (KeyRule P req) (fun _ _ => True) (call (.sessionCreate s d) >>= f) h := by
  apply Along.step
  · constructor
    · intro d' hd'
      obtain rfl := Option.some.inj hd'
      refine ⟨owner, hh.1, hh.2, fun s' hs' => ?_⟩
      obtain ⟨rfl, -⟩ := Op.sessionCreate.inj hs'
      exact hs
    · rintro c ⟨⟩
  · intro r
    exact along_keyless (I := fun _ => True) (hf r) rfl (fun _ _ _ => trivial) trivial

theorem keyed_completeLogin {ip challenge : String} {pl : PendingLogin}
    (hacts : ActsFor P req h (P.normalizeEmail pl.email)) :
    Along (KeyRule P req) (fun _ _ => True) (completeLogin P ip pl challenge) h := by
  apply along_bind (along_resolveCredential hacts)
  rintro h r ⟨hacts, hunlocked⟩
  rcases r with e | ⟨cred, dek⟩
  · trivial
  apply along_bind (along_onlyKey (only_maybeMigrateTwoFA _ dek) ⟨hacts, hunlocked cred dek rfl⟩)
  intro h _ hh
  apply along_bind (along_onlyKey (only_ensureFirstAccount _ pl dek) hh)
  intro h r hh
  rcases r with resp | accounts
  · trivial
  refine along_keyedSession (s := ⟨"", P.normalizeEmail pl.email, pl.username, accounts, 0⟩) hh rfl
    fun r => ?_
  rcases r with e | sess
  · exact Uses.pure _
  refine Uses.step rfl fun _ => ?_
  refine Uses.bind (uses_onBothKeys uses_resetFailures _ _) (by decide) fun _ => ?_
  exact Uses.bind (uses_onBothKeys uses_resetFailures _ _) (by decide) fun _ => Uses.pure _

theorem keyed_loginWithPassword {ip owner : String} {pl : PendingLogin}
    (hacts : ActsFor P req h owner) :
    Along (KeyRule P req) (fun _ _ => True) (loginWithPassword P ip owner pl) h := by
  apply along_bind (along_resolveCredential hacts)
  rintro h r ⟨hacts, hunlocked⟩
  rcases r with e | ⟨cred, dek⟩
  · trivial
  apply along_bind (along_onlyKey (only_ensureFirstAccount _ pl dek) ⟨hacts, hunlocked cred dek rfl⟩)
  intro h r hh
  rcases r with resp | accounts
  · trivial
  apply along_bind (along_onlyKey (only_maybeMigrateTwoFA _ dek) hh)
  intro h _ hh
  apply along_keyedSession hh rfl
  intro r
  rcases r with e | sess
  · exact Uses.pure _
  exact Uses.bind (uses_onBothKeys uses_resetFailures _ _) (by decide) fun _ => Uses.pure _

/-- Recording a failure and answering ends a request. -/
theorem keyed_recordFailures {ipKey : String} {emailKey : Option String} {resp : Resp} :
    Along (KeyRule P req) (fun _ _ => True)
      (onBothKeys recordFailure ipKey emailKey >>= fun _ => pure resp) h :=
  along_keyless (I := fun _ => True)
    (Uses.bind (uses_onBothKeys uses_recordFailure _ _) (List.Subset.refl _) fun _ => Uses.pure _)
    rfl (fun _ _ _ => trivial) trivial

end Pieces

/-! ## The login requests -/

section Requests

variable {P : Params} {h : List (Event Op Ans)}

theorem keyed_login (ip : String) (body : Except BodyErr LoginRequest) :
    Along (KeyRule P (.login ip body)) (fun _ _ => True) (login P ip body) h := by
  rcases body with e | req
  · trivial
  unfold login
  dsimp only
  split
  · trivial
  apply along_bind (along_keyless (uses_anyBlocked _ _ _ _ _) rfl
    (grows_actsFor P (.login ip (.ok req)) (P.normalizeEmail req.email)) rfl)
  intro h b _
  cases b with
  | true => trivial
  | false =>
    apply Along.step (keyRule_of_keyless rfl)
    intro r
    rcases r with e | _
    · exact keyed_recordFailures
    apply Along.step (keyRule_of_keyless rfl)
    intro r₁
    apply Along.step (keyRule_of_keyless rfl)
    intro r₂
    split
    · exact ⟨keyRule_of_keyless rfl, fun _ => trivial⟩
    · exact keyed_loginWithPassword rfl

theorem keyed_verifyCode {ip : String} {req : Verify2FARequest} {pl : PendingLogin} {t : TwoFA}
    (hpl : ⟨.pendingGet req.challenge, some pl⟩ ∈ h) :
    Along (KeyRule P (.verify2FA ip (.ok req))) (fun _ _ => True) (verifyCode P ip req pl t) h := by
  have hacts : ActsFor P (.verify2FA ip (.ok req)) h (P.normalizeEmail pl.email) := ⟨pl, hpl, rfl⟩
  have hgrows := grows_actsFor P (.verify2FA ip (.ok req)) (P.normalizeEmail pl.email)
  have hsecret : Along (KeyRule P (.verify2FA ip (.ok req)))
      (fun h _ => ActsFor P (.verify2FA ip (.ok req)) h (P.normalizeEmail pl.email))
      (totpSecret P (P.normalizeEmail pl.email) pl t) h := by
    apply along_bind (along_resolveCredential hacts)
    rintro h r ⟨hacts, -⟩
    rcases r with e | ⟨cred, dek⟩
    · exact hacts
    · dsimp only
      split <;> exact hacts
  apply along_bind hsecret
  intro h secret hacts
  apply Along.step (keyRule_of_keyless rfl)
  intro valid
  have hacts := hgrows h ⟨.validateCode secret (trimSpace req.code), valid⟩ hacts
  cases valid with
  | true => exact keyed_completeLogin hacts
  | false =>
    rw [if_neg Bool.false_ne_true]
    split
    · apply Along.step (keyRule_of_keyless rfl)
      intro r
      exact keyed_completeLogin (hgrows _ _ hacts)
    · exact Along.step (keyRule_of_keyless rfl) fun _ => keyed_recordFailures

theorem keyed_verify2FA (ip : String) (body : Except BodyErr Verify2FARequest) :
    Along (KeyRule P (.verify2FA ip body)) (fun _ _ => True) (verify2FA P ip body) h := by
  rcases body with e | req
  · trivial
  unfold verify2FA
  dsimp only
  split
  · trivial
  apply Along.step (keyRule_of_keyless rfl)
  intro pl?
  apply along_bind (along_keyless (I := fun h => ⟨.pendingGet req.challenge, pl?⟩ ∈ h)
    (uses_anyBlocked _ _ _ _ _) rfl (fun _ _ hv => List.mem_append_left _ hv) (by simp))
  intro h b hpl
  cases b with
  | true => trivial
  | false =>
    rcases pl? with _ | pl
    · exact keyed_recordFailures
    apply Along.step (keyRule_of_keyless rfl)
    intro r
    rcases r with e | _ | t
    · trivial
    · exact ⟨keyRule_of_keyless rfl, fun _ => trivial⟩
    · exact keyed_verifyCode (List.mem_append_left _ hpl)

theorem keyed_webAuthnLoginVerify (ip ceremonyID assertion : String) :
    Along (KeyRule P (.webAuthnLoginVerify ip ceremonyID assertion)) (fun _ _ => True)
      (webAuthnLoginVerify P ip ceremonyID assertion) h := by
  unfold webAuthnLoginVerify
  split
  · trivial
  split
  · trivial
  apply Along.step (keyRule_of_keyless rfl)
  intro pid?
  rcases pid? with _ | pendingID
  · trivial
  dsimp only
  split
  · trivial
  apply Along.step (keyRule_of_keyless rfl)
  intro pl?
  rcases pl? with _ | pl
  · trivial
  have hgrows := grows_actsFor P (.webAuthnLoginVerify ip ceremonyID assertion)
    (P.normalizeEmail pl.email)
  apply along_bind (along_keyless (uses_anyBlocked _ _ _ _ _) rfl hgrows
    ⟨pendingID, pl, by simp, rfl⟩)
  intro h b hacts
  cases b with
  | true => trivial
  | false =>
    apply Along.step (keyRule_of_keyless rfl)
    intro r
    have hacts := hgrows h ⟨.listWebAuthn (P.normalizeEmail pl.email), r⟩ hacts
    rcases r with e | stored
    · trivial
    apply Along.step (keyRule_of_keyless rfl)
    intro r
    have hacts := hgrows _ ⟨.finishLogin _ ceremonyID assertion, r⟩ hacts
    rcases r with e | cred
    · exact keyed_recordFailures
    apply Along.step (keyRule_of_keyless rfl)
    intro r
    have hacts := hgrows _ ⟨.updateWebAuthn (P.normalizeEmail pl.email) cred.id cred.json, r⟩ hacts
    apply along_bind (along_keyless (uses_onBothKeys uses_resetFailures _ _) rfl hgrows hacts)
    intro h _ hacts
    exact keyed_completeLogin hacts

/-- **Every login request keeps the rule**, whatever its calls answer. -/
theorem keyRule_prog (req : Request) (hreq : req.isLogin = true) :
    Along (KeyRule P req) (fun _ _ => True) (req.prog P) h := by
  cases req with
  | login ip body => exact keyed_login ip body
  | verify2FA ip body => exact keyed_verify2FA ip body
  | webAuthnLoginBegin ip body =>
    exact along_keyless (I := fun _ => True) (uses_webAuthnLoginBegin P ip body) rfl
      (fun _ _ _ => trivial) trivial
  | webAuthnLoginVerify ip ceremonyID assertion =>
    exact keyed_webAuthnLoginVerify ip ceremonyID assertion
  | env step =>
    refine Along.step (keyRule_of_keyless ?_) fun _ => trivial
    cases step <;> rfl
  | _ => cases hreq

end Requests

/-! ## Every run -/

section Runs

variable {P : Params} {reqs : ι → Request} {w : World} {tr : List (Entry ι World Op Ans)}
  {c : Conf ι World Op Ans Resp}

theorem users_withCredential_of_ne {w : World} {cred cred' : UserCredential} {key : String}
    (h : key ≠ P.ownerID cred.userEmail) :
    (w.withCredential P cred cred').users key = w.users key := by
  simp only [World.withCredential, Function.update_of_ne h]

/-- **A credential stays**: no call but an overwriting one changes a row of `users`. -/
theorem users_stay {key : String} {cred : UserCredential} {o : Op} {w w' : World} {r : Ans o}
    (h : sem P o w r w') (hkeep : ∀ c, o ≠ .updateUserCredential c) (hrow : w.users key = some cred) :
    w'.users key = some cred := by
  by_cases hpart : o.part = .users
  · cases o with
    | getUserCredential owner => rw [sem_read h rfl, hrow]
    | createUserCredential c' =>
      rcases sem_cases h with ⟨-, rfl⟩ | ⟨e, -, rfl⟩
      · by_cases hrefused : c'.userEmail = "" ∨ w.users (P.ownerID c'.userEmail) ≠ none
        · obtain ⟨e, hexec⟩ := exec_createUserCredential_refused hrefused
          rw [hexec, hrow]
        · -- the insertion is of another owner
          obtain ⟨hemail, hnone⟩ := not_or.mp hrefused
          have hne : key ≠ P.ownerID c'.userEmail := by
            intro heq
            rw [← heq, hrow] at hnone
            exact hnone (Option.some_ne_none _)
          rw [exec_createUserCredential hemail (not_not.mp hnone), users_withCredential_of_ne hne, hrow]
      · exact hrow
    | updateUserCredential c' => exact absurd rfl (hkeep c')
    | _ => cases hpart
  · rw [(sem_frame h).users hpart, hrow]

/-- An inserted credential is the owner's row. -/
theorem users_of_create {cred : UserCredential} {w w' : World}
    (h : sem P (.createUserCredential cred) w (.ok ()) w') :
    w'.users (P.ownerID cred.userEmail) = some cred := by
  obtain ⟨hok, rfl⟩ := sem_answer h fun _ => nofun
  by_cases hrefused : cred.userEmail = "" ∨ w.users (P.ownerID cred.userEmail) ≠ none
  · obtain ⟨e, hexec⟩ := exec_createUserCredential_refused hrefused
    rw [hexec] at hok
    cases hok
  · obtain ⟨hemail, hnone⟩ := not_or.mp hrefused
    rw [exec_createUserCredential hemail (not_not.mp hnone)]
    exact users_withCredential cred cred

/-- A wrapped key is in its box. -/
theorem body_of_wrapDEK {key : Key} {d : Nat} {b : Box Nat} {w w' : World}
    (h : sem P (.wrapDEK key d) w (.ok b) w') : b.body = d := by
  have hx := (sem_answer h fun _ => nofun).1
  rw [Except.ok.inj hx]

/-- A credential found or made in a run is there from then on. -/
theorem row_of_unlocked (hrun : Run (sem P) (start P reqs w) tr c)
    (hreqs : ∀ i, (reqs i).isLogin = true) {who : ι} {owner : String} {d : Nat}
    (hunlocked : Unlocked owner d (proj who tr)) :
    ∃ cred, c.state.users (P.ownerID owner) = some cred ∧ cred.wrappedDEK.body = d := by
  have hkeep : ∀ {pre post : List (Entry ι World Op Ans)} {e : Entry ι World Op Ans}
      {key : String} {cred : UserCredential}, tr = pre ++ e :: post →
      e.post.users key = some cred → c.state.users key = some cred := by
    intro pre post e key cred htr hrow
    refine (hrun.holds_after (I := fun w => w.users key = some cred) htr hrow ?_).1
    intro a x b hpost _ hx
    have hcut : tr = (pre ++ e :: a) ++ x :: b := by rw [htr, hpost]; simp
    obtain ⟨c₁, hpre, -, ⟨k, hk⟩, hsem⟩ := hrun.cut hcut
    have hrule := hpre.along (fun i => keyRule_prog (P := P) (reqs i) (hreqs i)) hk
    exact users_stay hsem hrule.keep hx
  rcases hunlocked with ⟨cred, password, hget, hunwrap⟩ | ⟨cred, key, hwrap, howner, hcreate⟩
  · obtain ⟨e, he, -, hev⟩ := mem_proj.mp hget
    obtain ⟨pre, post, htr⟩ := List.append_of_mem he
    have hsem := hrun.sem_of_mem he
    obtain ⟨ewho, eop, eans, epre, epost⟩ := e
    cases hev
    have hrow := Except.ok.inj (sem_answer hsem fun _ => nofun).1
    obtain ⟨cred', hcred', rfl⟩ := Option.map_eq_some_iff.mp hrow.symm
    refine ⟨cred', hkeep htr (users_stay hsem ?_ hcred'), (Box.decrypt_eq_some.mp hunwrap).2⟩
    rintro c ⟨⟩
  · obtain ⟨e, he, -, hev⟩ := mem_proj.mp hcreate
    obtain ⟨pre, post, htr⟩ := List.append_of_mem he
    have hsem := hrun.sem_of_mem he
    obtain ⟨x, hx, -, hxev⟩ := mem_proj.mp hwrap
    have hxsem := hrun.sem_of_mem hx
    obtain ⟨ewho, eop, eans, epre, epost⟩ := e
    obtain ⟨xwho, xop, xans, xpre, xpost⟩ := x
    cases hev
    cases hxev
    exact ⟨cred, hkeep htr (howner ▸ users_of_create hsem), body_of_wrapDEK hxsem⟩

/-- **One data key for an owner**: in every interleaving of logins, first or
not, with any faults, whatever data key a login uses for an owner is the one the
owner's row of `users` wraps. -/
theorem oneKey (hrun : Run (sem P) (start P reqs w) tr c) (hreqs : ∀ i, (reqs i).isLogin = true) :
    OneKey P reqs tr c.state := by
  intro pre e post d htr hkey
  obtain ⟨c₁, hpre, -, ⟨k, hk⟩, -⟩ := hrun.cut htr
  have hrule := hpre.along (fun i => keyRule_prog (P := P) (reqs i) (hreqs i)) hk
  obtain ⟨owner, hacts, hunlocked, hsession⟩ := hrule.use d hkey
  have hall : Unlocked owner d (proj e.who tr) := by
    rw [htr, proj_append]
    exact (grows_unlocked owner d).append hunlocked _
  obtain ⟨cred, hrow, hbody⟩ := row_of_unlocked hrun hreqs hall
  exact ⟨owner, cred, hacts, hrow, hbody, hsession⟩

end Runs

/-! ## A run -/

/-- Two first logins of one owner, their calls taking turns. -/
def firstLogins : List (Entry Bool World Op Ans) × Conf Bool World Op Ans Resp :=
  runFaulty .sample (fun _ => false) (List.replicate 30 [false, true]).flatten
    (fun _ => passwordLogin) World.empty

/-- Both logins generate a key; one gets a session, and the other is refused. -/
theorem oneKey_firstLogins :
    (firstLogins.1.filter fun e => e.op = .generateDEK).length = 2 ∧
      (firstLogins.1.filter fun e => (createdSession e.event).isSome).length = 1 ∧
      OneKey .sample (fun _ : Bool => passwordLogin) firstLogins.1 firstLogins.2.state :=
  ⟨by decide +kernel, by decide +kernel, oneKey (run_runFaulty _ _ _ _ _) fun _ => rfl⟩

end E2Mail.Backend
