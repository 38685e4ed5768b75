import E2Mail.Backend.AccountPaths
import E2Mail.Backend.SecondFactor

/-!
# The account lists of the sessions

A session keeps a list of accounts of its own, made when it is created and made
anew by the account requests of the session. What other sessions do to the
accounts does not reach it, so the list may be out of date; but it never has
an account of another owner.

* `Given` — the accounts a request has been given as an owner's;
* `ListRule` — a request only puts such accounts into a list, and only into the
  list of its own session; every request keeps to it (`listRule_prog`);
* `sessionsOwned_run` — the lists hold accounts of their sessions' owners, at any
  time in any run.
-/

namespace E2Mail.Backend

open Lib

/-! ## The rule -/

/-- An account that a request has been given as one of the owner's. -/
inductive Given (owner : String) (h : List (Event Op Ans)) : Account → Prop where
  /-- it was listed -/
  | listed (dek : Nat) {accounts : List Account} {a : Account}
      (hv : ⟨.listAccounts owner dek, .ok accounts⟩ ∈ h) (ha : a ∈ accounts) : Given owner h a
  /-- it was created -/
  | created {a b : Account} {dek : Nat} (hv : ⟨.createAccount b dek, .ok a⟩ ∈ h)
      (hb : b.userEmail = owner) : Given owner h a
  /-- it was updated -/
  | updated (b' : Account) (dek : Nat) {a b : Account} (hb : Given owner h b)
      (hsame : b'.userEmail = b.userEmail) (hv : ⟨.updateAccount b' dek, .ok a⟩ ∈ h) :
      Given owner h a

theorem Given.mono {owner : String} {h h' : List (Event Op Ans)} {a : Account}
    (ha : Given owner h a) (hsub : h ⊆ h') : Given owner h' a := by
  induction ha with
  | listed dek hv ha => exact .listed dek (hsub hv) ha
  | created hv hb => exact .created (hsub hv) hb
  | updated b' dek _ hsame hv ih => exact .updated b' dek ih hsame (hsub hv)

/-- The context of a request. -/
def Request.ctx? : Request → Option AuthContext
  | changePassword ctx _ | createAccount ctx _ | updateAccount ctx _ _ | deleteAccount ctx _
  | setDefaultAccount ctx _ => ctx
  | login _ _ | verify2FA _ _ | webAuthnLoginBegin _ _ | webAuthnLoginVerify _ _ _ | env _ => none

/-- The two calls that make a list put into it what the request was given. -/
structure ListRule (req : Request) (h : List (Event Op Ans)) (o : Op) : Prop where
  create : ∀ s dek, o = .sessionCreate s dek → ∀ a ∈ s.accounts, Given s.email h a
  refresh : ∀ id accounts, o = .setSessionAccounts id accounts →
    ∃ ctx, req.ctx? = some ctx ∧ id = ctx.sessionID ∧ ∀ a ∈ accounts, Given ctx.email h a

/-- Parts with no call that makes a list. -/
def Part.apart : Part → Bool
  | sessions | sessionLists => false
  | _ => true

section Rule

variable {P : Params} {req : Request} {h : List (Event Op Ans)} {I : List (Event Op Ans) → Prop}

theorem listRule_of_apart {o : Op} (ho : o.part.apart = true) : ListRule req h o := by
  refine ⟨?_, ?_⟩
  · rintro s dek rfl
    cases ho
  · rintro id accounts rfl
    cases ho

/-- A call on another part, then the rest. -/
theorem along_other {α : Type} {Q : List (Event Op Ans) → α → Prop} {o : Op}
    {k : Ans o → Handler α} (ho : o.part.apart = true)
    (hk : ∀ r, Along (ListRule req) Q (k r) (h ++ [⟨o, r⟩])) :
    Along (ListRule req) Q (call o >>= k) h :=
  Along.step (listRule_of_apart ho) hk

/-- A program on other parts keeps what more history does not take away. -/
theorem along_keep {α : Type} {ps : List Part} {p : Handler α} (hp : Uses ps p)
    (hps : ps.all Part.apart = true) (hmono : ∀ h h', I h → h ⊆ h' → I h') (hI : I h) :
    Along (ListRule req) (fun h _ => I h) p h := by
  have hapart : ∀ o : Op, ps.contains o.part = true → o.part.apart = true := fun o ho =>
    List.all_eq_true.mp hps _ (List.contains_iff_mem.mp ho)
  refine Along.of_only hp hI (fun h o r _ hI => ?_) fun h o ho _ => listRule_of_apart (hapart o ho)
  exact hmono h _ hI (List.subset_append_left _ _)

/-- A program on other parts. -/
theorem along_apart {α : Type} {ps : List Part} {p : Handler α} (hp : Uses ps p)
    (hps : ps.all Part.apart = true) : Along (ListRule req) (fun _ _ => True) p h :=
  along_keep (I := fun _ => True) hp hps (fun _ _ _ _ => trivial) trivial

/-! ## The logins -/

/-- The accounts of a login are those of its owner. -/
theorem given_ensureFirstAccount {ownerEmail : String} {pl : PendingLogin} {dek : Nat} :
    Along (ListRule req)
      (fun h r => ∀ accounts, r = .ok accounts → ∀ a ∈ accounts, Given ownerEmail h a)
      (ensureFirstAccount P ownerEmail pl dek) h := by
  refine along_other rfl fun r => ?_
  rcases r with e | accounts
  · rintro accounts ⟨⟩
  dsimp only
  split
  · rintro accounts' ⟨⟩ a ha
    exact .listed dek (by simp) ha
  rename_i hempty
  obtain rfl := not_not.mp hempty
  have henc : Along (ListRule req)
      (fun _ r => ∀ acc, r = .ok acc → acc.userEmail = ownerEmail)
      (encryptAccountPasswords P (firstAccount ownerEmail pl) dek)
      (h ++ [⟨.listAccounts ownerEmail dek, .ok []⟩]) := by
    refine along_other rfl fun r => ?_
    rcases r with e | imapEnc
    · rintro acc ⟨⟩
    refine along_other rfl fun r => ?_
    rcases r with e | smtpEnc
    · rintro acc ⟨⟩
    · rintro acc ⟨⟩
      rfl
  refine along_bind henc ?_
  rintro h₂ (e | acc) howner
  · rintro accounts ⟨⟩
  refine along_other rfl fun r => ?_
  rcases r with e | acc'
  · rintro accounts ⟨⟩
  · rintro accounts ⟨⟩ a ha
    obtain rfl := List.mem_singleton.mp ha
    exact .created (List.mem_append_right _ List.mem_cons_self) (howner acc rfl)

/-- A new session has the accounts that the login was given. -/
theorem along_newSession {owner username : String} {accounts : List Account} {dek : Nat}
    {f : Res Session → Handler Resp} (hgiven : ∀ a ∈ accounts, Given owner h a)
    (hf : ∀ r, Uses [.pending, .limiter] (f r)) :
    Along (ListRule req) (fun _ _ => True)
      (call (.sessionCreate { email := owner, username := username, accounts := accounts } dek)
        >>= f) h := by
  refine Along.step ⟨?_, ?_⟩ fun r => along_apart (hf r) rfl
  · rintro s dek ⟨⟩
    exact hgiven
  · rintro id accounts ⟨⟩

theorem mono_given {owner : String} {accounts : List Account} (h h' : List (Event Op Ans))
    (hgiven : ∀ a ∈ accounts, Given owner h a) (hsub : h ⊆ h') :
    ∀ a ∈ accounts, Given owner h' a := fun a ha => (hgiven a ha).mono hsub

theorem listRule_loginWithPassword {ip ownerEmail : String} {pl : PendingLogin} :
    Along (ListRule req) (fun _ _ => True) (loginWithPassword P ip ownerEmail pl) h := by
  refine along_bind (along_apart (uses_resolveCredential _ _) rfl) fun h₁ r _ => ?_
  rcases r with e | ⟨cred, dek⟩
  · trivial
  refine along_bind given_ensureFirstAccount fun h₂ r hgiven => ?_
  rcases r with resp | accounts
  · trivial
  refine along_bind (along_keep (uses_maybeMigrateTwoFA P _ _) rfl mono_given (hgiven _ rfl))
    fun h₃ _ hgiven => along_newSession hgiven fun r => ?_
  rcases r with e | sess
  · exact Uses.pure _
  exact Uses.bind (uses_onBothKeys uses_resetFailures _ _) (by decide) fun _ => Uses.pure _

theorem listRule_completeLogin {ip challenge : String} {pl : PendingLogin} :
    Along (ListRule req) (fun _ _ => True) (completeLogin P ip pl challenge) h := by
  refine along_bind (along_apart (uses_resolveCredential _ _) rfl) fun h₁ r _ => ?_
  rcases r with e | ⟨cred, dek⟩
  · trivial
  refine along_bind (along_apart (uses_maybeMigrateTwoFA P _ _) rfl) fun h₂ _ _ => ?_
  refine along_bind given_ensureFirstAccount fun h₃ r hgiven => ?_
  rcases r with resp | accounts
  · trivial
  refine along_newSession (hgiven _ rfl) fun r => ?_
  rcases r with e | sess
  · exact Uses.pure _
  refine Uses.step rfl fun _ => ?_
  refine Uses.bind (uses_onBothKeys uses_resetFailures _ _) (by decide) fun _ => ?_
  exact Uses.bind (uses_onBothKeys uses_resetFailures _ _) (by decide) fun _ => Uses.pure _

theorem listRule_recordFailures {ipKey : String} {emailKey : Option String} {resp : Resp} :
    Along (ListRule req) (fun _ _ => True)
      (onBothKeys recordFailure ipKey emailKey >>= fun _ => pure resp) h :=
  along_apart (Uses.bind (uses_onBothKeys uses_recordFailure _ _) (List.Subset.refl _)
    fun _ => Uses.pure _) rfl

theorem listRule_login (ip : String) (body : Except BodyErr LoginRequest) :
    Along (ListRule req) (fun _ _ => True) (login P ip body) h := by
  rcases body with e | r
  · trivial
  unfold login
  dsimp only
  split
  · trivial
  refine along_bind (along_apart (uses_anyBlocked _ _ _ _ _) rfl) fun h₁ b _ => ?_
  cases b with
  | true => trivial
  | false =>
    refine along_other rfl fun r => ?_
    rcases r with e | _
    · exact listRule_recordFailures
    refine along_other rfl fun r₁ => along_other rfl fun r₂ => ?_
    split
    · exact along_other rfl fun _ => trivial
    · exact listRule_loginWithPassword

theorem listRule_verifyCode {ip : String} {r : Verify2FARequest} {pl : PendingLogin} {t : TwoFA} :
    Along (ListRule req) (fun _ _ => True) (verifyCode P ip r pl t) h := by
  refine along_bind (along_apart (uses_totpSecret P _ _ _) rfl) fun h₁ secret _ => ?_
  refine along_other rfl fun valid => ?_
  cases valid with
  | true => exact listRule_completeLogin
  | false =>
    simp only [Bool.false_eq_true, if_false]
    split
    · exact along_other rfl fun _ => listRule_completeLogin
    · exact along_other rfl fun _ => listRule_recordFailures

theorem listRule_verify2FA (ip : String) (body : Except BodyErr Verify2FARequest) :
    Along (ListRule req) (fun _ _ => True) (verify2FA P ip body) h := by
  rcases body with e | r
  · trivial
  unfold verify2FA
  dsimp only
  split
  · trivial
  refine along_other rfl fun pl? => ?_
  refine along_bind (along_apart (uses_anyBlocked _ _ _ _ _) rfl) fun h₂ b _ => ?_
  cases b with
  | true => trivial
  | false =>
    rcases pl? with _ | pl
    · exact listRule_recordFailures
    refine along_other rfl fun r => ?_
    rcases r with e | _ | t
    · trivial
    · exact along_other rfl fun _ => trivial
    · exact listRule_verifyCode

theorem listRule_webAuthnLoginVerify (ip ceremonyID assertion : String) :
    Along (ListRule req) (fun _ _ => True) (webAuthnLoginVerify P ip ceremonyID assertion) h := by
  unfold webAuthnLoginVerify
  split
  · trivial
  split
  · trivial
  refine along_other rfl fun pid? => ?_
  rcases pid? with _ | pendingID
  · trivial
  dsimp only
  split
  · trivial
  refine along_other rfl fun pl? => ?_
  rcases pl? with _ | pl
  · trivial
  refine along_bind (along_apart (uses_anyBlocked _ _ _ _ _) rfl) fun h₃ b _ => ?_
  cases b with
  | true => trivial
  | false =>
    refine along_bind (along_apart (uses_loadWebAuthnUser P _) rfl) fun h₄ r _ => ?_
    rcases r with e | user
    · trivial
    refine along_other rfl fun r => ?_
    rcases r with e | cred
    · exact listRule_recordFailures
    refine along_other rfl fun _ => ?_
    exact along_bind (along_apart (uses_onBothKeys uses_resetFailures _ _) rfl)
      fun h₇ _ _ => listRule_completeLogin

/-! ## The account handlers -/

variable {ctx : AuthContext}

/-- A session's list is made anew from the accounts that are listed. -/
theorem listRule_refresh {resp : Resp} (hctx : req.ctx? = some ctx) :
    Along (ListRule req) (fun _ _ => True)
      (refreshSessionAccounts ctx >>= fun _ => pure resp) h := by
  refine along_other rfl fun r => ?_
  rcases r with e | accounts
  · trivial
  refine Along.step ⟨?_, ?_⟩ fun _ => trivial
  · rintro s dek ⟨⟩
  · rintro id accounts' ⟨⟩
    exact ⟨ctx, hctx, rfl, fun a ha => .listed ctx.dek (by simp) ha⟩

theorem listRule_createAccount (body : Except BodyErr AccountRequest)
    (hctx : req.ctx? = some ctx) :
    Along (ListRule req) (fun _ _ => True) (createAccount (some ctx) body) h := by
  rcases body with e | r
  · trivial
  unfold createAccount
  dsimp only
  split
  · trivial
  refine along_other rfl fun imap => ?_
  rcases imap with e | imap
  · trivial
  refine along_other rfl fun smtp => ?_
  rcases smtp with e | smtp
  · trivial
  refine along_other rfl fun count => ?_
  rcases count with e | count
  · trivial
  refine along_other rfl fun acc => ?_
  rcases acc with e | acc
  · trivial
  · exact listRule_refresh hctx

theorem listRule_updateAccount (id : String) (body : Except BodyErr AccountRequest)
    (hctx : req.ctx? = some ctx) :
    Along (ListRule req) (fun _ _ => True) (updateAccount (some ctx) id body) h := by
  refine along_other rfl fun r => ?_
  rcases r with e | _ | existing
  · trivial
  · trivial
  rcases body with e | r
  · trivial
  refine along_bind (along_apart (uses_reencryptPasswords ctx _ _) rfl) fun h₂ r _ => ?_
  rcases r with e | acc
  · trivial
  refine along_other rfl fun r => ?_
  rcases r with e | acc'
  · trivial
  · exact listRule_refresh hctx

theorem listRule_deleteAccount (id : String) (hctx : req.ctx? = some ctx) :
    Along (ListRule req) (fun _ _ => True) (deleteAccount (some ctx) id) h := by
  refine Along.step ⟨by simp, by simp⟩ fun accounts => ?_
  split
  · trivial
  refine along_other rfl fun r => ?_
  rcases r with e | _
  · trivial
  · exact listRule_refresh hctx

theorem listRule_setDefaultAccount (id : String) (hctx : req.ctx? = some ctx) :
    Along (ListRule req) (fun _ _ => True) (setDefaultAccount (some ctx) id) h := by
  refine along_other rfl fun r => ?_
  rcases r with e | ⟨⟩
  · trivial
  refine along_other rfl fun r => ?_
  rcases r with e | _ | _
  · trivial
  · trivial
  · exact listRule_refresh hctx

/-! ## The password change -/

theorem listRule_finishChange {limiterKey : String} {accounts : List Account}
    (hctx : req.ctx? = some ctx) (hgiven : ∀ a ∈ accounts, Given ctx.email h a) :
    Along (ListRule req) (fun _ _ => True) (finishChange ctx limiterKey accounts) h := by
  refine Along.step ⟨?_, ?_⟩ fun _ => along_other rfl fun _ => trivial
  · rintro s dek ⟨⟩
  · rintro id accounts' ⟨⟩
    exact ⟨ctx, hctx, rfl, hgiven⟩

/-- The account that was saved is put back into the list. -/
theorem given_replaceAccount {owner : String} {accounts : List Account} {a : Account}
    (hgiven : ∀ a ∈ accounts, Given owner h a) (ha : Given owner h a) :
    ∀ b ∈ replaceAccount a accounts, Given owner h b := by
  intro b hb
  obtain ⟨b', hb', rfl⟩ := List.mem_map.mp hb
  split
  · exact ha
  · exact hgiven b' hb'

/-- The list after the change, with the account or without. -/
theorem given_saved {accounts : List Account} {saved : Option Account}
    (hlist : ∀ a ∈ accounts, Given ctx.email h a) (hsaved : ∀ a, saved = some a → Given ctx.email h a) :
    ∀ a ∈ (match saved with
      | none => accounts
      | some a => replaceAccount a accounts), Given ctx.email h a := by
  cases saved with
  | none => exact hlist
  | some a => exact given_replaceAccount hlist (hsaved a rfl)

theorem listRule_applyChange {r : ChangePasswordRequest} {accounts : List Account}
    {acc : Option Account} {limiterKey userDN : String} {rewrapped : Option (Nat × Box Nat)}
    {imap smtp : Box String} (hctx : req.ctx? = some ctx)
    (hgiven : ∀ a ∈ accounts, Given ctx.email h a) (hacc : ∀ a ∈ acc, a ∈ accounts) :
    Along (ListRule req) (fun _ _ => True)
      (applyChange ctx r accounts acc limiterKey userDN rewrapped imap smtp) h := by
  refine along_other rfl fun r₁ => ?_
  rcases r₁ with e | _
  · dsimp only
    split <;> trivial
  have hgiven := mono_given _ _ hgiven (List.subset_append_left h
    [⟨.ldapChangePassword userDN r.newPassword, .ok ()⟩])
  have hsync : Along (ListRule req) (fun h' saved => (∀ a ∈ accounts, Given ctx.email h' a) ∧
      ∀ a, saved = some (some a) → Given ctx.email h' a)
      (syncAccount ctx userDN r.oldPassword acc imap smtp)
      (h ++ [⟨.ldapChangePassword userDN r.newPassword, .ok ()⟩]) := by
    rcases acc with _ | orig
    · exact ⟨hgiven, by simp⟩
    refine along_other rfl fun saved => ?_
    have hgiven' := mono_given _ _ hgiven (List.subset_append_left
      (h ++ [⟨.ldapChangePassword userDN r.newPassword, .ok ()⟩])
      [⟨.updateAccount (orig.withPasswords imap smtp) ctx.dek, saved⟩])
    rcases saved with e | saved
    · exact along_bind (along_keep (uses_rollbackLDAP userDN r.oldPassword) rfl mono_given hgiven')
        fun h₂ _ hgiven₂ => ⟨hgiven₂, by simp⟩
    · refine ⟨hgiven', ?_⟩
      rintro a ⟨⟩
      exact .updated (orig.withPasswords imap smtp) ctx.dek (hgiven' orig (hacc orig rfl)) rfl
        (List.mem_append_right _ List.mem_cons_self)
  refine along_bind hsync fun h₁ saved hsaved => ?_
  rcases saved with _ | saved
  · trivial
  have hlist := given_saved hsaved.1 fun a ha => hsaved.2 a (congrArg some ha)
  rcases rewrapped with _ | ⟨salt, box⟩
  · exact listRule_finishChange hctx hlist
  refine along_bind (along_keep (uses_syncCredential ctx _ _ _ _ _) rfl mono_given hlist)
    fun h₂ ok hlist₂ => ?_
  cases ok with
  | false => trivial
  | true => exact listRule_finishChange hctx hlist₂

theorem listRule_changePassword (body : Except BodyErr ChangePasswordRequest)
    (hctx : req.ctx? = some ctx) :
    Along (ListRule req) (fun _ _ => True) (changePassword P (some ctx) body) h := by
  unfold changePassword
  dsimp only
  split
  · trivial
  rcases body with e | r
  · trivial
  dsimp only
  split
  · trivial
  refine along_other rfl fun list => ?_
  rcases list with e | accounts
  · trivial
  dsimp only
  split
  · trivial
  refine along_other rfl fun blocked => ?_
  split
  · trivial
  refine along_other rfl fun dn => ?_
  rcases dn with e | dn
  · trivial
  refine along_other rfl fun r₁ => ?_
  rcases r₁ with e | ⟨⟩
  · dsimp only
    split
    · exact along_other rfl fun _ => trivial
    · trivial
  refine along_bind (along_keep (I := fun h => ∀ a ∈ accounts, Given ctx.email h a)
    (uses_rewrapDEK ctx _ _) rfl mono_given fun a ha => .listed ctx.dek (by simp) ha)
    fun h₁ rewrapped hgiven => ?_
  rcases rewrapped with e | rewrapped
  · trivial
  refine along_other rfl fun imap => ?_
  rcases imap with e | imap
  · trivial
  refine along_other rfl fun smtp => ?_
  rcases smtp with e | smtp
  · trivial
  refine listRule_applyChange hctx (mono_given _ _ hgiven ?_) fun a ha => List.mem_of_find?_eq_some ha
  exact List.Subset.trans (List.subset_append_left _ _) (List.subset_append_left _ _)

end Rule

/-- **Every request keeps the rule**, whatever its calls answer. -/
theorem listRule_prog (P : Params) (req : Request) :
    Along (ListRule req) (fun _ _ => True) (req.prog P) [] := by
  cases req with
  | login ip body => exact listRule_login ip body
  | verify2FA ip body => exact listRule_verify2FA ip body
  | webAuthnLoginBegin ip body => exact along_apart (uses_webAuthnLoginBegin P ip body) rfl
  | webAuthnLoginVerify ip ceremonyID assertion =>
    exact listRule_webAuthnLoginVerify ip ceremonyID assertion
  | changePassword ctx? body =>
    cases ctx? with
    | none => trivial
    | some ctx => exact listRule_changePassword body rfl
  | createAccount ctx? body =>
    cases ctx? with
    | none => trivial
    | some ctx => exact listRule_createAccount body rfl
  | updateAccount ctx? id body =>
    cases ctx? with
    | none => trivial
    | some ctx => exact listRule_updateAccount id body rfl
  | deleteAccount ctx? id =>
    cases ctx? with
    | none => trivial
    | some ctx => exact listRule_deleteAccount id rfl
  | setDefaultAccount ctx? id =>
    cases ctx? with
    | none => trivial
    | some ctx => exact listRule_setDefaultAccount id rfl
  | env step =>
    refine along_other ?_ fun _ => trivial
    cases step <;> rfl

/-! ## Runs -/

theorem userEmail_createAccount {P : Params} {w : World} {a b : Account} {dek : Nat}
    (h : (exec P (.createAccount b dek) w).1 = .ok a) : a.userEmail = b.userEmail := by
  simp only [exec, World.createAccount] at h
  split at h
  · cases h
  · split at h
    · cases h
    · cases h
      rfl

theorem userEmail_updateAccount {P : Params} {w : World} {a b : Account} {dek : Nat}
    (h : (exec P (.updateAccount b dek) w).1 = .ok a) : a.userEmail = b.userEmail := by
  simp only [exec, World.updateAccount] at h
  split at h
  · cases h
  · cases h
    rfl

theorem sessions_sessionCreate {P : Params} {w : World} {s : Session} {dek : Nat} :
    (exec P (.sessionCreate s dek) w).2.sessions =
      Function.update w.sessions (w.sessionCreate P s dek).1.id
        (some (w.sessionCreate P s dek).1) := by
  by_cases hid : s.id = "" <;> simp [exec, World.sessionCreate, hid]

/-- The lists hold accounts of their sessions' owners. -/
def SessionsOwned (w : World) : Prop :=
  ∀ id s, w.sessions id = some s → ∀ a ∈ s.accounts, a.userEmail = s.email

section Runs

variable {ι : Type} [DecidableEq ι] {P : Params} {reqs : ι → Request} {w₀ : World}
  {tr : List (Entry ι World Op Ans)} {c₀ c : Conf ι World Op Ans Resp}

/-- The context of a request is that of the session it names, as the middleware made it. -/
def ContextsOf (reqs : ι → Request) (tr : List (Entry ι World Op Ans)) : Prop :=
  ∀ e ∈ tr, ∀ ctx, (reqs e.who).ctx? = some ctx → ∀ s, e.pre.sessions ctx.sessionID = some s →
    s.email = ctx.email

/-- What a request is given as an owner's account is the owner's. -/
theorem Given.userEmail (hrun : Run (sem P) c₀ tr c) {i : ι} {owner : String} {a : Account}
    (ha : Given owner (proj i tr) a) : a.userEmail = owner := by
  induction ha with
  | listed dek hv ha =>
    obtain ⟨e, -, -, -, hsem⟩ := entry_of_event hrun hv
    have hlist := (sem_answer hsem fun _ => nofun).1
    obtain ⟨r, -, -, rfl⟩ := row_of_listAccounts hlist.symm ha
    rfl
  | created hv hb =>
    obtain ⟨e, -, -, -, hsem⟩ := entry_of_event hrun hv
    have hnew := (sem_answer hsem fun _ => nofun).1
    rw [← hb]
    exact userEmail_createAccount hnew.symm
  | updated b' dek _ hsame hv ih =>
    obtain ⟨e, -, -, -, hsem⟩ := entry_of_event hrun hv
    have hnew := (sem_answer hsem fun _ => nofun).1
    rw [← ih, ← hsame]
    exact userEmail_updateAccount hnew.symm

/-- One call keeps the lists as they should be. -/
theorem sessionsOwned_step {o : Op} {r : Ans o} {w w' : World} (hw : SessionsOwned w)
    (hsem : sem P o w r w')
    (hcreate : ∀ s dek, o = .sessionCreate s dek → ∀ a ∈ s.accounts, a.userEmail = s.email)
    (hrefresh : ∀ id accounts, o = .setSessionAccounts id accounts →
      ∀ s, w.sessions id = some s → ∀ a ∈ accounts, a.userEmail = s.email) :
    SessionsOwned w' := by
  by_cases hpart : o.part.apart = true
  · have hne : o.part ≠ .sessions ∧ o.part ≠ .sessionLists := by
      refine ⟨fun h => ?_, fun h => ?_⟩ <;>
        (rw [h] at hpart
         cases hpart)
    rw [SessionsOwned, (sem_frame hsem).sessions hne]
    exact hw
  obtain ⟨-, rfl⟩ | ⟨e, hfail, rfl⟩ := sem_cases hsem
  swap
  · cases o with
    | markDefault owner id => exact hw
    | _ => exact hw
  cases o with
  | sessionCreate s dek =>
    intro id s' hs' a ha
    rw [sessions_sessionCreate, Function.update_apply] at hs'
    split at hs'
    · cases hs'
      exact hcreate s dek rfl a ha
    · exact hw id s' hs' a ha
  | sessionAccounts id => exact hw
  | setSessionAccounts id accounts =>
    intro id' s' hs' a ha
    simp only [exec, World.setSessionAccounts, Function.update_apply] at hs'
    split at hs'
    · obtain ⟨s, hs, rfl⟩ := Option.map_eq_some_iff.mp hs'
      exact hrefresh id accounts rfl s hs a ha
    · exact hw id' s' hs' a ha
  | _ => exact absurd rfl hpart

/-- **The lists of the sessions** hold accounts of their sessions' owners, whatever the
requests of all sessions have done. -/
theorem sessionsOwned_run (h₀ : SessionsOwned w₀) (hrun : Run (sem P) (start P reqs w₀) tr c)
    (hctx : ContextsOf reqs tr) : SessionsOwned c.state := by
  refine Run.invariant (I := fun tr w => ContextsOf reqs tr → SessionsOwned w) (fun _ => h₀)
    (fun tr c e hrun hpre ⟨k, hk⟩ hsem ih hctx => ?_) hrun hctx
  have hctx' : ContextsOf reqs tr := fun e he => hctx e (List.mem_append_left _ he)
  have hrule := hrun.along (fun i => listRule_prog P (reqs i)) hk
  refine sessionsOwned_step (ih hctx') hsem (fun s dek ho a ha => ?_)
    fun id accounts ho s hs a ha => ?_
  · exact (hrule.create s dek ho a ha).userEmail hrun
  · obtain ⟨ctx, hreq, rfl, hgiven⟩ := hrule.refresh id accounts ho
    rw [hctx e (by simp) ctx hreq s hs]
    exact (hgiven a ha).userEmail hrun

end Runs

end E2Mail.Backend
