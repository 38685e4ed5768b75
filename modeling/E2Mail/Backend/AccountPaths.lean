import E2Mail.Backend.LoginPaths

/-!
# What stands behind a write of the accounts

Whatever its calls answer, a request writes an account row only on what it has
read: an insert follows a count or an empty list, an update an account that was
read, and the second statement of `SetDefaultAccount` follows the first one
directly. Section by section:

* `AccountRule` — the rule, for one call and the history before it;
* one lemma for each handler that writes accounts;
* `accountRule_prog` — every request keeps to the rule.
-/

namespace E2Mail.Backend

open Lib

/-! ## The rule -/

/-- The call has seen whether the owner has accounts, and `isDefault` says that it has none. -/
def Counted (owner : String) (isDefault : Bool) (v : Event Op Ans) : Prop :=
  (∃ n, v = ⟨.countAccounts owner, .ok n⟩ ∧ isDefault = decide (n = 0)) ∨
    ∃ dek, v = ⟨.listAccounts owner dek, .ok []⟩ ∧ isDefault = true

/-- The call has read the account. -/
def ReadAccount (a : Account) (v : Event Op Ans) : Prop :=
  (∃ owner dek accounts, v = ⟨.listAccounts owner dek, .ok accounts⟩ ∧ a ∈ accounts) ∨
    ∃ owner id dek, v = ⟨.getAccount owner id dek, .ok (some a)⟩

/-- The same row with the same flag. -/
structure Account.SameFlag (a b : Account) : Prop where
  owner : a.userEmail = b.userEmail
  id : a.id = b.id
  isDefault : a.isDefault = b.isDefault

theorem Account.SameFlag.trans {a b c : Account} (h₁ : a.SameFlag b) (h₂ : b.SameFlag c) :
    a.SameFlag c :=
  ⟨h₁.owner.trans h₂.owner, h₁.id.trans h₂.id, h₁.isDefault.trans h₂.isDefault⟩

/-- The history ends with the first statement of `SetDefaultAccount`. -/
def Clearing (owner : String) (h : List (Event Op Ans)) : Prop :=
  h.getLast? = some ⟨.clearDefaults owner, .ok ()⟩

/-- What holds at every call of a request. -/
structure AccountRule (req : Request) (h : List (Event Op Ans)) (o : Op) : Prop where
  insert : ∀ a dek, o = .createAccount a dek → ∃ v ∈ h, Counted a.userEmail a.isDefault v
  update : ∀ a dek, o = .updateAccount a dek → ∃ v ∈ h, ∃ b, ReadAccount b v ∧ a.SameFlag b
  clear : ∀ owner, o = .clearDefaults owner →
    ∃ ctx id, req = .setDefaultAccount (some ctx) id ∧ ctx.email = owner
  next : ∀ owner, Clearing owner h → ∃ id, o = .markDefault owner id
  mark : ∀ owner id, o = .markDefault owner id → Clearing owner h ∧
    ∃ ctx, req = .setDefaultAccount (some ctx) id ∧ ctx.email = owner

/-- Calls the rule says nothing about. -/
def Op.plain : Op → Bool
  | createAccount _ _ | updateAccount _ _ | clearDefaults _ | markDefault _ _ => false
  | _ => true

/-- The history does not end between the two statements. -/
def Outside (h : List (Event Op Ans)) : Prop := ∀ owner, ¬Clearing owner h

/-- What a program of other calls leaves behind it. -/
def Behind (h h' : List (Event Op Ans)) : Prop := Outside h' ∧ h <+: h'

section Rule

variable {req : Request} {h h' : List (Event Op Ans)} {o : Op}

theorem outside_nil : Outside [] := by
  intro owner hc
  cases hc

theorem outside_snoc {r : Ans o} (ho : ∀ owner, o ≠ .clearDefaults owner) :
    Outside (h ++ [⟨o, r⟩]) := by
  intro owner hc
  rw [Clearing, List.getLast?_concat] at hc
  cases hc
  exact ho owner rfl

theorem Op.ne_clear_of_plain (ho : o.plain = true) (owner : String) : o ≠ .clearDefaults owner := by
  rintro rfl
  cases ho

theorem accountRule_of_plain (hno : Outside h) (ho : o.plain = true) : AccountRule req h o := by
  refine ⟨?_, ?_, ?_, fun owner hc => absurd hc (hno owner), ?_⟩
  · rintro a dek rfl
    cases ho
  · rintro a dek rfl
    cases ho
  · rintro owner rfl
    cases ho
  · rintro owner id rfl
    cases ho

theorem accountRule_insert (hno : Outside h) {a : Account} {dek : Nat} {v : Event Op Ans}
    (hv : v ∈ h) (hcount : Counted a.userEmail a.isDefault v) :
    AccountRule req h (.createAccount a dek) := by
  refine ⟨?_, by simp, by simp, fun owner hc => absurd hc (hno owner), by simp⟩
  rintro _ _ ⟨⟩
  exact ⟨v, hv, hcount⟩

theorem accountRule_update (hno : Outside h) {a b : Account} {dek : Nat} {v : Event Op Ans}
    (hv : v ∈ h) (hread : ReadAccount b v) (hsame : a.SameFlag b) :
    AccountRule req h (.updateAccount a dek) := by
  refine ⟨by simp, ?_, by simp, fun owner hc => absurd hc (hno owner), by simp⟩
  rintro _ _ ⟨⟩
  exact ⟨v, hv, b, hread, hsame⟩

theorem Behind.refl (hno : Outside h) : Behind h h := ⟨hno, List.prefix_rfl⟩

theorem Behind.trans {h'' : List (Event Op Ans)} (h₁ : Behind h h') (h₂ : Behind h' h'') :
    Behind h h'' := ⟨h₂.1, h₁.2.trans h₂.2⟩

theorem Behind.snoc (hb : Behind h h') {r : Ans o} (ho : ∀ owner, o ≠ .clearDefaults owner) :
    Behind h (h' ++ [⟨o, r⟩]) := ⟨outside_snoc ho, hb.2.trans (List.prefix_append ..)⟩

/-- Programs of plain calls keep to the rule. -/
theorem along_plain {α : Type} {p : Handler α} (hp : p.Only fun o => o.plain = true)
    (hno : Outside h) : Along (AccountRule req) (fun h' _ => Behind h h') p h :=
  Along.of_only hp (Behind.refl hno)
    (fun _ _ _ ho hb => hb.snoc (Op.ne_clear_of_plain ho))
    fun _ _ ho hb => accountRule_of_plain hb.1 ho

theorem Op.plain_of_part {ps : List Part} (hps : ps.contains .accounts = false)
    (ho : ps.contains o.part = true) : o.plain = true := by
  have hpart : o.part ≠ .accounts := by
    intro hpart
    rw [hpart, hps] at ho
    cases ho
  cases o with
  | createAccount a dek => exact absurd rfl hpart
  | updateAccount a dek => exact absurd rfl hpart
  | clearDefaults owner => exact absurd rfl hpart
  | markDefault owner id => exact absurd rfl hpart
  | _ => rfl

/-- Programs that do not use the accounts keep to the rule. -/
theorem along_off {α : Type} {ps : List Part} {p : Handler α} (hp : Uses ps p)
    (hps : ps.contains .accounts = false) (hno : Outside h) :
    Along (AccountRule req) (fun h' _ => Behind h h') p h :=
  along_plain (Prog.Only.mono hp fun _ ho => Op.plain_of_part hps ho) hno

/-- A plain call, then the rest. -/
theorem along_step {α : Type} {Q : List (Event Op Ans) → α → Prop} {k : Ans o → Handler α}
    (ho : o.plain = true) (hno : Outside h)
    (hk : ∀ r, Outside (h ++ [⟨o, r⟩]) → Along (AccountRule req) Q (k r) (h ++ [⟨o, r⟩])) :
    Along (AccountRule req) Q (call o >>= k) h :=
  Along.step (accountRule_of_plain hno ho) fun r => hk r (outside_snoc (Op.ne_clear_of_plain ho))

/-- What ends a request off the accounts. -/
theorem along_end {α : Type} {ps : List Part} {p : Handler α} (hp : Uses ps p)
    (hps : ps.contains .accounts = false) (hno : Outside h) :
    Along (AccountRule req) (fun _ _ => True) p h :=
  Along.mono (fun _ _ h => h) (fun _ _ _ => trivial) (along_off hp hps hno)

end Rule

/-! ## The logins -/

section Login

variable {P : Params} {req : Request} {h : List (Event Op Ans)}

theorem along_encryptAccountPasswords {acc : Account} {dek : Nat} (hno : Outside h) :
    Along (AccountRule req)
      (fun h' r => Behind h h' ∧ ∀ acc', r = .ok acc' → acc'.SameFlag acc)
      (encryptAccountPasswords P acc dek) h := by
  refine along_step rfl hno fun r hno₁ => ?_
  rcases r with e | imapEnc
  · exact ⟨⟨hno₁, List.prefix_append ..⟩, by simp⟩
  refine along_step rfl hno₁ fun r hno₂ => ?_
  have hb : Behind h (h ++ [⟨.encrypt (.dek dek) (P.text acc.encIMAPPassword), .ok imapEnc⟩] ++
      [⟨.encrypt (.dek dek) (P.text acc.encSMTPPassword), r⟩]) :=
    ⟨hno₂, (List.prefix_append ..).trans (List.prefix_append ..)⟩
  rcases r with e | smtpEnc
  · exact ⟨hb, by simp⟩
  · refine ⟨hb, ?_⟩
    rintro acc' ⟨⟩
    exact ⟨rfl, rfl, rfl⟩

/-- The first account is inserted after an empty list. -/
theorem along_ensureFirstAccount {ownerEmail : String} {pl : PendingLogin} {dek : Nat}
    (hno : Outside h) :
    Along (AccountRule req) (fun h' _ => Outside h') (ensureFirstAccount P ownerEmail pl dek) h := by
  refine along_step rfl hno fun r hno₁ => ?_
  rcases r with e | accounts
  · exact hno₁
  dsimp only
  split
  · exact hno₁
  rename_i hempty
  obtain rfl := not_not.mp hempty
  refine along_bind (along_encryptAccountPasswords hno₁) ?_
  rintro h₂ (e | acc) ⟨hb, hsame⟩
  · exact hb.1
  obtain ⟨howner, -, hdefault⟩ := hsame acc rfl
  have hlisted : ⟨.listAccounts ownerEmail dek, .ok []⟩ ∈ h₂ := hb.2.subset (by simp)
  refine Along.step (accountRule_insert hb.1 hlisted (.inr ⟨dek, ?_, hdefault⟩)) fun r => ?_
  · rw [show acc.userEmail = ownerEmail from howner]
  · rcases r with e | acc' <;> exact outside_snoc (by simp)

theorem along_loginWithPassword' {ip ownerEmail : String} {pl : PendingLogin} (hno : Outside h) :
    Along (AccountRule req) (fun _ _ => True) (loginWithPassword P ip ownerEmail pl) h := by
  refine along_bind (along_off (uses_resolveCredential _ _) rfl hno) fun h₁ r hb => ?_
  rcases r with e | ⟨cred, dek⟩
  · trivial
  refine along_bind (along_ensureFirstAccount hb.1) fun h₂ r hno₂ => ?_
  rcases r with resp | accounts
  · trivial
  refine along_bind (along_off (uses_maybeMigrateTwoFA P _ _) rfl hno₂) fun h₃ _ hb => ?_
  refine along_step rfl hb.1 fun r hno₄ => ?_
  rcases r with e | sess
  · trivial
  exact along_end (Uses.bind (uses_onBothKeys uses_resetFailures _ _) (List.Subset.refl _)
    fun _ => Uses.pure _) rfl hno₄

theorem along_completeLogin' {ip challenge : String} {pl : PendingLogin} (hno : Outside h) :
    Along (AccountRule req) (fun _ _ => True) (completeLogin P ip pl challenge) h := by
  refine along_bind (along_off (uses_resolveCredential _ _) rfl hno) fun h₁ r hb => ?_
  rcases r with e | ⟨cred, dek⟩
  · trivial
  refine along_bind (along_off (uses_maybeMigrateTwoFA P _ _) rfl hb.1) fun h₂ _ hb => ?_
  refine along_bind (along_ensureFirstAccount hb.1) fun h₃ r hno₃ => ?_
  rcases r with resp | accounts
  · trivial
  refine along_step rfl hno₃ fun r hno₄ => ?_
  rcases r with e | sess
  · trivial
  refine along_step rfl hno₄ fun _ hno₅ => ?_
  refine along_end (Uses.bind (uses_onBothKeys uses_resetFailures _ _) (List.Subset.refl _)
    fun _ => ?_) rfl hno₅
  exact Uses.bind (uses_onBothKeys uses_resetFailures _ _) (List.Subset.refl _) fun _ => Uses.pure _

theorem along_recordFailures' {ipKey : String} {emailKey : Option String} {resp : Resp}
    (hno : Outside h) :
    Along (AccountRule req) (fun _ _ => True)
      (onBothKeys recordFailure ipKey emailKey >>= fun _ => pure resp) h :=
  along_end (Uses.bind (uses_onBothKeys uses_recordFailure _ _) (List.Subset.refl _)
    fun _ => Uses.pure _) rfl hno

theorem accountRule_login (ip : String) (body : Except BodyErr LoginRequest) :
    Along (AccountRule req) (fun _ _ => True) (login P ip body) [] := by
  rcases body with e | r
  · trivial
  unfold login
  dsimp only
  split
  · trivial
  refine along_bind (along_off (uses_anyBlocked _ _ _ _ _) rfl outside_nil) fun h₁ b hb => ?_
  cases b with
  | true => trivial
  | false =>
    refine along_step rfl hb.1 fun r hno₂ => ?_
    rcases r with e | _
    · exact along_recordFailures' hno₂
    refine along_step rfl hno₂ fun r₁ hno₃ => ?_
    refine along_step rfl hno₃ fun r₂ hno₄ => ?_
    split
    · exact along_step rfl hno₄ fun _ _ => trivial
    · exact along_loginWithPassword' hno₄

theorem along_verifyCode' {ip : String} {r : Verify2FARequest} {pl : PendingLogin} {t : TwoFA}
    (hno : Outside h) :
    Along (AccountRule req) (fun _ _ => True) (verifyCode P ip r pl t) h := by
  refine along_bind (along_off (uses_totpSecret P _ _ _) rfl hno) fun h₁ secret hb => ?_
  refine along_step rfl hb.1 fun valid hno₂ => ?_
  cases valid with
  | true => exact along_completeLogin' hno₂
  | false =>
    simp only [Bool.false_eq_true, if_false]
    split
    · exact along_step rfl hno₂ fun _ hno₃ => along_completeLogin' hno₃
    · exact along_step rfl hno₂ fun _ hno₃ => along_recordFailures' hno₃

theorem accountRule_verify2FA (ip : String) (body : Except BodyErr Verify2FARequest) :
    Along (AccountRule req) (fun _ _ => True) (verify2FA P ip body) [] := by
  rcases body with e | r
  · trivial
  unfold verify2FA
  dsimp only
  split
  · trivial
  refine along_step rfl outside_nil fun pl? hno₁ => ?_
  refine along_bind (along_off (uses_anyBlocked _ _ _ _ _) rfl hno₁) fun h₂ b hb => ?_
  cases b with
  | true => trivial
  | false =>
    rcases pl? with _ | pl
    · exact along_recordFailures' hb.1
    refine along_step rfl hb.1 fun r hno₃ => ?_
    rcases r with e | _ | t
    · trivial
    · exact along_step rfl hno₃ fun _ _ => trivial
    · exact along_verifyCode' hno₃

theorem accountRule_webAuthnLoginVerify (ip ceremonyID assertion : String) :
    Along (AccountRule req) (fun _ _ => True) (webAuthnLoginVerify P ip ceremonyID assertion) [] := by
  unfold webAuthnLoginVerify
  split
  · trivial
  split
  · trivial
  refine along_step rfl outside_nil fun pid? hno₁ => ?_
  rcases pid? with _ | pendingID
  · trivial
  dsimp only
  split
  · trivial
  refine along_step rfl hno₁ fun pl? hno₂ => ?_
  rcases pl? with _ | pl
  · trivial
  refine along_bind (along_off (uses_anyBlocked _ _ _ _ _) rfl hno₂) fun h₃ b hb => ?_
  cases b with
  | true => trivial
  | false =>
    refine along_bind (along_off (uses_loadWebAuthnUser P _) rfl hb.1) fun h₄ r hb => ?_
    rcases r with e | user
    · trivial
    refine along_step rfl hb.1 fun r hno₅ => ?_
    rcases r with e | cred
    · exact along_recordFailures' hno₅
    refine along_step rfl hno₅ fun _ hno₆ => ?_
    exact along_bind (along_off (uses_onBothKeys uses_resetFailures _ _) rfl hno₆)
      fun h₇ _ hb => along_completeLogin' hb.1

end Login

/-! ## The account handlers -/

section Handlers

variable {P : Params} {req : Request} {h : List (Event Op Ans)} {ctx : AuthContext}

theorem only_refreshSessionAccounts :
    (refreshSessionAccounts ctx).Only fun o => o.plain = true := by
  refine Prog.Only.step rfl fun r => ?_
  rcases r with e | accounts
  · exact trivial
  · exact ⟨rfl, fun _ => trivial⟩

/-- Refreshing the session's list and answering ends a request. -/
theorem along_refresh {resp : Resp} (hno : Outside h) :
    Along (AccountRule req) (fun _ _ => True)
      (refreshSessionAccounts ctx >>= fun _ => pure resp) h :=
  along_bind (along_plain only_refreshSessionAccounts hno) fun _ _ _ => trivial

/-- The new account is the default if the count was zero. -/
theorem accountRule_createAccount (ctx? : Option AuthContext) (body : Except BodyErr AccountRequest) :
    Along (AccountRule req) (fun _ _ => True) (createAccount ctx? body) [] := by
  rcases ctx? with _ | ctx
  · trivial
  rcases body with e | r
  · trivial
  unfold createAccount
  dsimp only
  split
  · trivial
  refine along_step rfl outside_nil fun imap hno₁ => ?_
  rcases imap with e | imap
  · trivial
  refine along_step rfl hno₁ fun smtp hno₂ => ?_
  rcases smtp with e | smtp
  · trivial
  refine along_step rfl hno₂ fun count hno₃ => ?_
  rcases count with e | count
  · trivial
  refine Along.step (accountRule_insert hno₃ (v := ⟨.countAccounts ctx.email, .ok count⟩) (by simp)
    (.inl ⟨count, rfl, rfl⟩)) fun acc => ?_
  rcases acc with e | acc
  · trivial
  · exact along_refresh (outside_snoc (by simp))

theorem along_reencryptPasswords {password : String} {acc : Account} (hno : Outside h) :
    Along (AccountRule req)
      (fun h' r => Behind h h' ∧ ∀ acc', r = .ok acc' → acc'.SameFlag acc)
      (reencryptPasswords ctx password acc) h := by
  unfold reencryptPasswords
  split
  · refine ⟨Behind.refl hno, ?_⟩
    rintro acc' ⟨⟩
    exact ⟨rfl, rfl, rfl⟩
  refine along_step rfl hno fun r hno₁ => ?_
  rcases r with e | imapEnc
  · exact ⟨⟨hno₁, List.prefix_append ..⟩, by simp⟩
  refine along_step rfl hno₁ fun r hno₂ => ?_
  have hb : Behind h (h ++ [⟨.encrypt (.dek ctx.dek) password, .ok imapEnc⟩] ++
      [⟨.encrypt (.dek ctx.dek) password, r⟩]) :=
    ⟨hno₂, (List.prefix_append ..).trans (List.prefix_append ..)⟩
  rcases r with e | smtpEnc
  · exact ⟨hb, by simp⟩
  · refine ⟨hb, ?_⟩
    rintro acc' ⟨⟩
    exact ⟨rfl, rfl, rfl⟩

/-- The update writes back the row that was read, with its flag. -/
theorem accountRule_updateAccount (ctx? : Option AuthContext) (id : String)
    (body : Except BodyErr AccountRequest) :
    Along (AccountRule req) (fun _ _ => True) (updateAccount ctx? id body) [] := by
  rcases ctx? with _ | ctx
  · trivial
  refine along_step rfl outside_nil fun r hno₁ => ?_
  rcases r with e | _ | existing
  · trivial
  · trivial
  rcases body with e | r
  · trivial
  refine along_bind (along_reencryptPasswords hno₁) ?_
  rintro h₂ (e | acc) ⟨hb, hsame⟩
  · trivial
  have hsame : acc.SameFlag existing := (hsame acc rfl).trans ⟨rfl, rfl, rfl⟩
  have hread : ⟨.getAccount ctx.email id ctx.dek, .ok (some existing)⟩ ∈ h₂ :=
    hb.2.subset (by simp)
  refine Along.step (accountRule_update hb.1 hread (.inr ⟨_, _, _, rfl⟩) hsame) fun r => ?_
  rcases r with e | acc'
  · trivial
  · exact along_refresh (outside_snoc (by simp))

theorem accountRule_deleteAccount (ctx? : Option AuthContext) (id : String) :
    Along (AccountRule req) (fun _ _ => True) (deleteAccount ctx? id) [] := by
  rcases ctx? with _ | ctx
  · trivial
  refine along_step rfl outside_nil fun accounts hno₁ => ?_
  split
  · trivial
  refine along_step rfl hno₁ fun r hno₂ => ?_
  rcases r with e | _
  · trivial
  · exact along_refresh hno₂

/-- The second statement follows the first one directly. -/
theorem accountRule_setDefaultAccount (ctx? : Option AuthContext) (id : String) :
    Along (AccountRule (.setDefaultAccount ctx? id)) (fun _ _ => True)
      (setDefaultAccount ctx? id) [] := by
  rcases ctx? with _ | ctx
  · trivial
  refine Along.step ⟨by simp, by simp, ?_, fun owner hc =>
    absurd hc (outside_nil owner), by simp⟩ fun r => ?_
  · rintro owner ⟨⟩
    exact ⟨ctx, id, rfl, rfl⟩
  rcases r with e | ⟨⟩
  · trivial
  refine Along.step ⟨by simp, by simp, by simp, ?_, ?_⟩ fun r => ?_
  · intro owner hc
    cases hc
    exact ⟨id, rfl⟩
  · rintro owner id' ⟨⟩
    exact ⟨rfl, ctx, rfl, rfl⟩
  · rcases r with e | _ | _
    · trivial
    · trivial
    · exact along_refresh (outside_snoc (by simp))

/-! ## The password change -/

/-- Plain calls, and updates that keep the flag of the account `acc`. -/
def KeepsFlag (acc : Option Account) (o : Op) : Prop :=
  o.plain = true ∨ ∃ a dek b, o = .updateAccount a dek ∧ acc = some b ∧ a.SameFlag b

/-- A program that keeps the flag of an account that was read. -/
theorem along_keepsFlag {α : Type} {p : Handler α} {acc : Option Account}
    (hp : p.Only (KeepsFlag acc)) (hread : ∀ b, acc = some b → ∃ v ∈ h, ReadAccount b v)
    (hno : Outside h) : Along (AccountRule req) (fun _ _ => True) p h := by
  refine Along.mono (fun _ _ h => h) (fun _ _ _ => trivial) (Along.of_only
    (I := fun h' => Outside h' ∧ ∀ b, acc = some b → ∃ v ∈ h', ReadAccount b v) hp ⟨hno, hread⟩ ?_ ?_)
  · intro h' o r ho hI
    refine ⟨outside_snoc ?_, fun b hb => ?_⟩
    · rintro owner rfl
      rcases ho with ho | ⟨a, dek, b, ho, -⟩ <;> cases ho
    · obtain ⟨v, hv, hr⟩ := hI.2 b hb
      exact ⟨v, List.mem_append_left _ hv, hr⟩
  · rintro h' o (ho | ⟨a, dek, b, rfl, hb, hsame⟩) ⟨hno, hread⟩
    · exact accountRule_of_plain hno ho
    · obtain ⟨v, hv, hr⟩ := hread b hb
      exact accountRule_update hno hv hr hsame

variable {acc : Option Account} {userDN oldPassword : String}

theorem keepsFlag_of_uses {α : Type} {ps : List Part} {p : Handler α} (hp : Uses ps p)
    (hps : ps.contains .accounts = false) : p.Only (KeepsFlag acc) :=
  Prog.Only.mono hp fun _ ho => .inl (Op.plain_of_part hps ho)

theorem keepsFlag_rollbackLDAP : (rollbackLDAP userDN oldPassword).Only (KeepsFlag acc) :=
  keepsFlag_of_uses (uses_rollbackLDAP userDN oldPassword) rfl

theorem keepsFlag_syncAccount {imap smtp : Box String} :
    (syncAccount ctx userDN oldPassword acc imap smtp).Only (KeepsFlag acc) := by
  rcases acc with _ | b
  · exact trivial
  refine Prog.Only.step (.inr ⟨_, _, b, rfl, rfl, rfl, rfl, rfl⟩) fun r => ?_
  rcases r with e | saved
  · exact Prog.Only.bind keepsFlag_rollbackLDAP fun _ => trivial
  · exact trivial

theorem keepsFlag_syncCredential {salt : Nat} {box : Box Nat} :
    (syncCredential ctx userDN oldPassword acc salt box).Only (KeepsFlag acc) := by
  refine Prog.Only.step (.inl rfl) fun r => ?_
  refine Prog.Only.bind ?_ fun r' => ?_
  · rw [writeCredential]
    split <;> exact ⟨.inl rfl, fun _ => trivial⟩
  rcases r' with e | _
  · refine Prog.Only.bind ?_ fun _ => Prog.Only.bind ?_ fun _ =>
      Prog.Only.bind keepsFlag_rollbackLDAP fun _ => trivial
    · rcases acc with _ | b
      · exact trivial
      · exact ⟨.inr ⟨b, _, b, rfl, rfl, rfl, rfl, rfl⟩, fun _ => trivial⟩
    · rcases ignoreErr none r with _ | oldCred
      · exact trivial
      · exact ⟨.inl rfl, fun _ => trivial⟩
  · exact trivial

theorem keepsFlag_applyChange {r : ChangePasswordRequest} {accounts : List Account}
    {limiterKey : String} {rewrapped : Option (Nat × Box Nat)} {imap smtp : Box String} :
    (applyChange ctx r accounts acc limiterKey userDN rewrapped imap smtp).Only
      (KeepsFlag acc) := by
  have hfinish : ∀ accounts', (finishChange ctx limiterKey accounts').Only (KeepsFlag acc) :=
    fun accounts' => keepsFlag_of_uses (uses_finishChange ctx limiterKey accounts') rfl
  refine Prog.Only.step (.inl rfl) fun r₁ => ?_
  rcases r₁ with e | _
  · dsimp only
    split <;> exact trivial
  refine Prog.Only.bind keepsFlag_syncAccount fun saved => ?_
  rcases saved with _ | saved
  · exact trivial
  rcases rewrapped with _ | ⟨salt, box⟩
  · exact hfinish _
  refine Prog.Only.bind keepsFlag_syncCredential fun ok => ?_
  cases ok with
  | false => exact trivial
  | true => exact hfinish _

theorem keepsFlag_verifyAndApply {r : ChangePasswordRequest} {accounts : List Account}
    {limiterKey : String} :
    (verifyAndApply P ctx r accounts acc limiterKey userDN).Only (KeepsFlag acc) := by
  refine Prog.Only.step (.inl rfl) fun r₁ => ?_
  rcases r₁ with e | _
  · dsimp only
    split
    · exact ⟨.inl rfl, fun _ => trivial⟩
    · exact trivial
  refine Prog.Only.bind (keepsFlag_of_uses (uses_rewrapDEK ctx _ _) rfl) fun rewrapped => ?_
  rcases rewrapped with e | rewrapped
  · exact trivial
  refine Prog.Only.step (.inl rfl) fun imap => ?_
  rcases imap with e | imap
  · exact trivial
  refine Prog.Only.step (.inl rfl) fun smtp => ?_
  rcases smtp with e | smtp
  · exact trivial
  exact keepsFlag_applyChange

/-- A password change updates the account it has read in the owner's list. -/
theorem accountRule_changePassword (ctx? : Option AuthContext)
    (body : Except BodyErr ChangePasswordRequest) :
    Along (AccountRule req) (fun _ _ => True) (changePassword P ctx? body) [] := by
  rcases ctx? with _ | ctx
  · trivial
  unfold changePassword
  dsimp only
  split
  · trivial
  rcases body with e | r
  · trivial
  dsimp only
  split
  · trivial
  refine along_step rfl outside_nil fun list hno₁ => ?_
  rcases list with e | accounts
  · trivial
  dsimp only
  split
  · trivial
  refine along_step rfl hno₁ fun blocked hno₂ => ?_
  split
  · trivial
  refine along_step rfl hno₂ fun dn hno₃ => ?_
  rcases dn with e | dn
  · trivial
  refine along_keepsFlag keepsFlag_verifyAndApply (fun b hb => ?_) hno₃
  refine ⟨⟨.listAccounts ctx.email ctx.dek, .ok accounts⟩, by simp, .inl ⟨_, _, accounts, rfl, ?_⟩⟩
  exact List.mem_of_find?_eq_some hb

end Handlers

/-- **Every request keeps the rule**, whatever its calls answer. -/
theorem accountRule_prog (P : Params) (req : Request) :
    Along (AccountRule req) (fun _ _ => True) (req.prog P) [] := by
  cases req with
  | login ip body => exact accountRule_login ip body
  | verify2FA ip body => exact accountRule_verify2FA ip body
  | webAuthnLoginBegin ip body =>
    exact along_end (uses_webAuthnLoginBegin P ip body) rfl outside_nil
  | webAuthnLoginVerify ip ceremonyID assertion =>
    exact accountRule_webAuthnLoginVerify ip ceremonyID assertion
  | changePassword ctx body => exact accountRule_changePassword ctx body
  | createAccount ctx body => exact accountRule_createAccount ctx body
  | updateAccount ctx id body => exact accountRule_updateAccount ctx id body
  | deleteAccount ctx id => exact accountRule_deleteAccount ctx id
  | setDefaultAccount ctx id => exact accountRule_setDefaultAccount ctx id
  | env step =>
    refine along_step ?_ outside_nil fun _ _ => trivial
    cases step <;> rfl

end E2Mail.Backend
