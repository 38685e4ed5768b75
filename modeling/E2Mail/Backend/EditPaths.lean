import E2Mail.Backend.DefaultAccount

/-!
# How a request writes an account row

`UpdateAccount` and `ChangePassword` write a row once, on what they have read of it, and
`ChangePassword` may write once more to take that back. `SetDefaultAccount` writes with two
statements. Whatever the calls answer:

* `writes` — the calls of a history that have written account rows;
* `EditRule` — what stands before each of these calls;
* `Ended` — what a request that has answered has written, and what it answered;
* `editRule_prog` — the rule for every request on accounts.
-/

namespace E2Mail.Backend

open Lib

/-! ## The rule -/

/-- The call has written account rows, or may have. -/
def wrote (v : Event Op Ans) : Bool :=
  match v with
  | ⟨.updateAccount _ _, .ok _⟩ | ⟨.clearDefaults _, .ok _⟩ | ⟨.markDefault _ _, _⟩ => true
  | _ => false

/-- The calls of a history that have written account rows. -/
def writes (h : List (Event Op Ans)) : List (Event Op Ans) := h.filter wrote

/-- Before its first write of a row a request has read it. -/
def FirstWrite (h : List (Event Op Ans)) (acc : Account) : Prop :=
  writes h = [] ∧ ∃ v ∈ h, ∃ b, ReadAccount b v ∧ b.id = acc.id ∧ b.userEmail = acc.userEmail

/-- Before it takes its write back, a request has written the row and nothing else, and before
that it has read what it writes back now. -/
def WriteBack (h : List (Event Op Ans)) (acc : Account) : Prop :=
  ∃ h₁ h₂ a dek saved, h = h₁ ++ ⟨.updateAccount a dek, .ok saved⟩ :: h₂ ∧ writes h₁ = [] ∧
    writes h₂ = [] ∧ (∃ v ∈ h₁, ReadAccount acc v) ∧ a.id = acc.id ∧ a.userEmail = acc.userEmail

/-- What holds at every call of a request. -/
structure EditRule (h : List (Event Op Ans)) (o : Op) : Prop where
  update : ∀ acc dek, o = .updateAccount acc dek → FirstWrite h acc ∨ WriteBack h acc
  mark : ∀ owner id, o = .markDefault owner id → h = [⟨.clearDefaults owner, .ok ()⟩]
  insert : ∀ acc dek, o ≠ .createAccount acc dek
  delete : ∀ owner id, o ≠ .deleteAccount owner id

/-- The response is a success. -/
def Resp.isSuccess : Resp → Bool
  | .success _ => true
  | .error _ _ => false

/-- What a request has written in the end, and what it answered. -/
inductive Ended (h : List (Event Op Ans)) (resp : Resp) : Prop where
  | nothing (hw : writes h = [])
  | edited (acc : Account) (dek : Nat) (saved : Account)
      (hw : writes h = [⟨.updateAccount acc dek, .ok saved⟩]) (hresp : resp.isSuccess = true)
  /-- the write was taken back -/
  | undone (a : Account) (dek : Nat) (saved acc : Account) (dek' : Nat) (saved' : Account)
      (hw : writes h = [⟨.updateAccount a dek, .ok saved⟩, ⟨.updateAccount acc dek', .ok saved'⟩])
      (hid : a.id = acc.id) (howner : a.userEmail = acc.userEmail) (hresp : resp.isSuccess = false)
  /-- the write was not taken back: that failed -/
  | stuck (h₁ h₂ : List (Event Op Ans)) (acc : Account) (dek : Nat) (err : Err)
      (hh : h = h₁ ++ ⟨.updateAccount acc dek, .error err⟩ :: h₂) (hback : WriteBack h₁ acc)
      (hw : writes h = writes h₁) (hresp : resp.isSuccess = false)
  | switched (owner id : String)
      (hw : writes h = [⟨.clearDefaults owner, .ok ()⟩, ⟨.markDefault owner id, .ok true⟩])
      (hresp : resp.isSuccess = true)
  /-- the second statement failed or found no row -/
  | unmarked (owner id : String) (r : Res Bool) (hr : r ≠ .ok true)
      (hw : writes h = [⟨.clearDefaults owner, .ok ()⟩, ⟨.markDefault owner id, r⟩])
      (hresp : resp.isSuccess = false)

/-! ## Programs that write no account rows -/

section Rule

variable {h h' : List (Event Op Ans)} {o : Op}

@[simp] theorem writes_nil : writes [] = [] := rfl

theorem writes_append : writes (h ++ h') = writes h ++ writes h' := List.filter_append ..

theorem writes_update (a : Account) (dek : Nat) (saved : Account) :
    writes (⟨.updateAccount a dek, .ok saved⟩ :: h) =
      ⟨.updateAccount a dek, .ok saved⟩ :: writes h := List.filter_cons_of_pos rfl

theorem wrote_of_not_writes (ho : o.writesAccounts = false) (r : Ans o) : wrote ⟨o, r⟩ = false := by
  cases o <;> first | rfl | cases ho

theorem writes_snoc (ho : o.writesAccounts = false) (r : Ans o) :
    writes (h ++ [⟨o, r⟩]) = writes h := by
  rw [writes_append, writes, writes, List.filter_singleton, wrote_of_not_writes ho r]
  exact List.append_nil _

theorem editRule_of_not_writes (ho : o.writesAccounts = false) : EditRule h o := by
  refine ⟨?_, ?_, ?_, ?_⟩
  · rintro acc dek rfl
    cases ho
  · rintro owner id rfl
    cases ho
  · rintro acc dek rfl
    cases ho
  · rintro owner id rfl
    cases ho

theorem editRule_update {acc : Account} {dek : Nat} (hrule : FirstWrite h acc ∨ WriteBack h acc) :
    EditRule h (.updateAccount acc dek) := by
  refine ⟨?_, by simp, by simp, by simp⟩
  rintro _ _ ⟨⟩
  exact hrule

/-- More of a history, with no further writes. -/
structure More (h h' : List (Event Op Ans)) : Prop where
  isPrefix : h <+: h'
  writes_eq : writes h' = writes h

theorem More.refl : More h h := ⟨List.prefix_rfl, rfl⟩

theorem More.snoc (hm : More h h') (ho : o.writesAccounts = false) (r : Ans o) :
    More h (h' ++ [⟨o, r⟩]) :=
  ⟨hm.isPrefix.trans (List.prefix_append ..), (writes_snoc ho r).trans hm.writes_eq⟩

theorem More.trans {h'' : List (Event Op Ans)} (h₁ : More h h') (h₂ : More h' h'') : More h h'' :=
  ⟨h₁.isPrefix.trans h₂.isPrefix, h₂.writes_eq.trans h₁.writes_eq⟩

/-- Programs that write no account rows keep to the rule. -/
theorem along_more {α : Type} {p : Handler α} (hp : p.Only fun o => o.writesAccounts = false) :
    Along EditRule (fun h' _ => More h h') p h :=
  Along.of_only hp More.refl (fun _ _ r ho hm => hm.snoc ho r)
    fun _ _ ho _ => editRule_of_not_writes ho

theorem Op.not_writesAccounts_of_part {ps : List Part} (hps : ps.contains .accounts = false)
    (ho : ps.contains o.part = true) : o.writesAccounts = false := by
  by_contra hne
  have hpart : o.part = .accounts := by cases o <;> first | rfl | exact absurd rfl hne
  rw [hpart, hps] at ho
  cases ho

/-- Programs that do not use the accounts keep to the rule. -/
theorem along_apart_accounts {α : Type} {ps : List Part} {p : Handler α} (hp : Uses ps p)
    (hps : ps.contains .accounts = false) : Along EditRule (fun h' _ => More h h') p h :=
  along_more (Prog.Only.mono hp fun _ ho => Op.not_writesAccounts_of_part hps ho)

/-- A call that writes no account rows, then the rest. -/
theorem along_read {α : Type} {Q : List (Event Op Ans) → α → Prop} {k : Ans o → Handler α}
    (ho : o.writesAccounts = false) (hm : More h h')
    (hk : ∀ r, More h (h' ++ [⟨o, r⟩]) → Along EditRule Q (k r) (h' ++ [⟨o, r⟩])) :
    Along EditRule Q (call o >>= k) h' :=
  Along.step (editRule_of_not_writes ho) fun r => hk r (hm.snoc ho r)

theorem WriteBack.more {acc : Account} (hback : WriteBack h acc) (hm : More h h') :
    WriteBack h' acc := by
  obtain ⟨h₁, h₂, a, dek, saved, rfl, hw₁, hw₂, hread, hid, howner⟩ := hback
  obtain ⟨t, rfl⟩ := hm.isPrefix
  have ht : writes t = [] := by
    have heq := hm.writes_eq
    rw [writes_append] at heq
    exact List.append_right_eq_self.mp heq
  refine ⟨h₁, h₂ ++ t, a, dek, saved, by simp, hw₁, ?_, hread, hid, howner⟩
  rw [writes_append, hw₂, ht]
  rfl

theorem WriteBack.writes_eq {acc : Account} (hback : WriteBack h acc) :
    ∃ a dek saved, writes h = [⟨.updateAccount a dek, .ok saved⟩] ∧ a.id = acc.id ∧
      a.userEmail = acc.userEmail := by
  obtain ⟨h₁, h₂, a, dek, saved, rfl, hw₁, hw₂, -, hid, howner⟩ := hback
  refine ⟨a, dek, saved, ?_, hid, howner⟩
  rw [writes_append, hw₁, writes_update, hw₂]
  rfl

theorem writes_failed (acc : Account) (dek : Nat) (err : Err) :
    writes (h ++ [⟨.updateAccount acc dek, .error err⟩]) = writes h := by
  rw [writes_append]
  exact List.append_nil _

end Rule

/-! ## The account handlers -/

section Handlers

variable {P : Params} {h h' : List (Event Op Ans)} {ctx : AuthContext}

theorem only_listRefresh : (refreshSessionAccounts ctx).Only fun o => o.writesAccounts = false := by
  refine Prog.Only.step rfl fun r => ?_
  rcases r with e | accounts
  · exact trivial
  · exact ⟨rfl, fun _ => trivial⟩

/-- Refreshing the session's list and answering ends a request. -/
theorem editRule_refreshed {resp : Resp} (hended : ∀ h', More h h' → Ended h' resp) :
    Along EditRule Ended (refreshSessionAccounts ctx >>= fun _ => pure resp) h :=
  along_bind (along_more only_listRefresh) fun h' _ hm => hended h' hm

theorem editRule_reencrypt {password : String} {acc : Account} :
    Along EditRule
      (fun h' r => More h h' ∧
        ∀ acc', r = .ok acc' → acc.id = acc'.id ∧ acc.userEmail = acc'.userEmail)
      (reencryptPasswords ctx password acc) h := by
  unfold reencryptPasswords
  split
  · refine ⟨More.refl, ?_⟩
    rintro acc' ⟨⟩
    exact ⟨rfl, rfl⟩
  refine along_read rfl More.refl fun r hm₁ => ?_
  rcases r with e | imapEnc
  · exact ⟨hm₁, by simp⟩
  refine along_read rfl hm₁ fun r hm₂ => ?_
  rcases r with e | smtpEnc
  · exact ⟨hm₂, by simp⟩
  · refine ⟨hm₂, ?_⟩
    rintro acc' ⟨⟩
    exact ⟨rfl, rfl⟩

/-- `UpdateAccount` writes the row once, after it has read it. -/
theorem editRule_updateAccount (ctx? : Option AuthContext) (id : String)
    (body : Except BodyErr AccountRequest) :
    Along EditRule Ended (updateAccount ctx? id body) [] := by
  rcases ctx? with _ | ctx
  · exact .nothing rfl
  refine along_read rfl More.refl fun r hm₁ => ?_
  rcases r with e | _ | existing
  · exact .nothing hm₁.writes_eq
  · exact .nothing hm₁.writes_eq
  rcases body with e | r
  · exact .nothing hm₁.writes_eq
  refine along_bind editRule_reencrypt ?_
  rintro h₂ (e | acc) ⟨hm₂, hsame⟩
  · exact .nothing (hm₂.writes_eq.trans hm₁.writes_eq)
  have hnone : writes h₂ = [] := hm₂.writes_eq.trans hm₁.writes_eq
  have hread : ⟨.getAccount ctx.email id ctx.dek, .ok (some existing)⟩ ∈ h₂ :=
    hm₂.isPrefix.subset (by simp)
  have hfirst : FirstWrite h₂ acc :=
    ⟨hnone, _, hread, existing, .inr ⟨_, _, _, rfl⟩, hsame acc rfl⟩
  refine Along.step (editRule_update (.inl hfirst)) fun r => ?_
  rcases r with e | saved
  · exact .nothing ((writes_failed _ _ _).trans hnone)
  refine editRule_refreshed fun h₃ hm₃ => .edited acc ctx.dek saved ?_ rfl
  rw [hm₃.writes_eq, writes_append, hnone]
  rfl

/-- `SetDefaultAccount` writes with its two statements. -/
theorem editRule_setDefaultAccount (ctx? : Option AuthContext) (id : String) :
    Along EditRule Ended (setDefaultAccount ctx? id) [] := by
  rcases ctx? with _ | ctx
  · exact .nothing rfl
  refine Along.step ⟨by simp, by simp, by simp, by simp⟩ fun r => ?_
  rcases r with e | ⟨⟩
  · exact .nothing rfl
  refine Along.step ⟨by simp, ?_, by simp, by simp⟩ fun r => ?_
  · rintro owner id' ⟨⟩
    rfl
  rcases r with e | _ | _
  · exact .unmarked ctx.email id _ (by simp) rfl rfl
  · exact .unmarked ctx.email id _ (by simp) rfl rfl
  · exact editRule_refreshed fun h₃ hm₃ => .switched ctx.email id hm₃.writes_eq rfl

/-! ## The password change -/

variable {acc : Option Account} {userDN oldPassword : String}

/-- The account row, if there is one, has been written and could be taken back. -/
def Written (acc : Option Account) (h : List (Event Op Ans)) : Prop :=
  (acc = none ∧ writes h = []) ∨ ∃ orig, acc = some orig ∧ WriteBack h orig

theorem Written.more (hwritten : Written acc h) (hm : More h h') : Written acc h' := by
  rcases hwritten with ⟨hnone, hw⟩ | ⟨orig, hacc, hback⟩
  · exact .inl ⟨hnone, hm.writes_eq.trans hw⟩
  · exact .inr ⟨orig, hacc, hback.more hm⟩

/-- A change that succeeds has written the row once, or there is none. -/
theorem Written.ended (hwritten : Written acc h) {resp : Resp} (hresp : resp.isSuccess = true) :
    Ended h resp := by
  rcases hwritten with ⟨-, hw⟩ | ⟨orig, -, hback⟩
  · exact .nothing hw
  · obtain ⟨a, dek, saved, hw, -⟩ := hback.writes_eq
    exact .edited a dek saved hw hresp

/-- What has happened may be answered by a failure. -/
def Failed (h : List (Event Op Ans)) : Prop := ∀ resp : Resp, resp.isSuccess = false → Ended h resp

theorem Failed.of_nothing (hw : writes h = []) : Failed h := fun _ _ => .nothing hw

theorem Failed.more (hf : Failed h) (hm : More h h') : Failed h' := by
  intro resp hresp
  rcases hf resp hresp with hw | ⟨_, _, _, _, hsuccess⟩ |
    ⟨a, dek, saved, acc, dek', saved', hw, hid, howner, -⟩ |
    ⟨h₁, h₂, acc, dek, err, rfl, hback, hw, -⟩ | ⟨_, _, _, hsuccess⟩ | ⟨owner, id, r, hr, hw, -⟩
  · exact .nothing (hm.writes_eq.trans hw)
  · exact absurd (hsuccess.symm.trans hresp) Bool.noConfusion
  · exact .undone a dek saved acc dek' saved' (hm.writes_eq.trans hw) hid howner hresp
  · obtain ⟨t, rfl⟩ := hm.isPrefix
    exact .stuck h₁ (h₂ ++ t) acc dek err (by simp) hback (hm.writes_eq.trans hw) hresp
  · exact absurd (hsuccess.symm.trans hresp) Bool.noConfusion
  · exact .unmarked owner id r hr (hm.writes_eq.trans hw) hresp

theorem editRule_rollbackLDAP :
    Along EditRule (fun h' _ => More h h') (rollbackLDAP userDN oldPassword) h :=
  along_apart_accounts (uses_rollbackLDAP userDN oldPassword) rfl

/-- The account row is written on what was read of it. -/
theorem editRule_syncAccount {imap smtp : Box String} (hnone : writes h = [])
    (hread : ∀ orig, acc = some orig → ∃ v ∈ h, ReadAccount orig v) :
    Along EditRule
      (fun h' saved => (saved = none → Failed h') ∧ (saved.isSome = true → Written acc h'))
      (syncAccount ctx userDN oldPassword acc imap smtp) h := by
  rcases acc with _ | orig
  · exact ⟨by simp, fun _ => .inl ⟨rfl, hnone⟩⟩
  obtain ⟨v, hv, hreadv⟩ := hread orig rfl
  refine Along.step (editRule_update (.inl ⟨hnone, v, hv, orig, hreadv, rfl, rfl⟩)) fun r => ?_
  rcases r with e | saved
  · have hfailed : Failed (h ++ [⟨.updateAccount (orig.withPasswords imap smtp) ctx.dek, .error e⟩]) :=
      .of_nothing ((writes_failed _ _ _).trans hnone)
    exact along_bind editRule_rollbackLDAP fun h₂ _ hm => ⟨fun _ => hfailed.more hm, by simp⟩
  · refine ⟨by simp, fun _ => .inr ⟨orig, rfl, h, [], _, _, saved, rfl, hnone, rfl, ⟨v, hv, hreadv⟩,
      rfl, rfl⟩⟩

/-- The row is written back, if it was written. -/
theorem editRule_restoreAccount (hwritten : Written acc h) :
    Along EditRule (fun h' _ => Failed h') (restoreAccount ctx acc) h := by
  rcases hwritten with ⟨rfl, hw⟩ | ⟨orig, rfl, hback⟩
  · exact .of_nothing hw
  obtain ⟨a, dek, saved, hw, hid, howner⟩ := hback.writes_eq
  refine Along.step (editRule_update (.inr hback)) fun r => ?_
  rcases r with e | saved'
  · exact fun resp hresp => .stuck h [] orig ctx.dek e rfl hback (writes_failed _ _ _) hresp
  · refine fun resp hresp => .undone a dek saved orig ctx.dek saved' ?_ hid howner hresp
    rw [writes_append, hw]
    rfl

theorem only_credentialWrite {exists? : Bool} {c : UserCredential} :
    (writeCredential exists? c).Only fun o => o.writesAccounts = false := by
  rw [writeCredential]
  split <;> exact ⟨rfl, fun _ => trivial⟩

theorem only_credentialBack {oldCred : Option UserCredential} :
    (restoreCredential oldCred).Only fun o => o.writesAccounts = false := by
  rcases oldCred with _ | c
  · exact trivial
  · exact ⟨rfl, fun _ => trivial⟩

/-- The credential is written, or the row is written back. -/
theorem editRule_syncCredential {salt : Nat} {box : Box Nat} (hwritten : Written acc h) :
    Along EditRule (fun h' ok => (ok = false → Failed h') ∧ (ok = true → Written acc h'))
      (syncCredential ctx userDN oldPassword acc salt box) h := by
  refine along_read rfl More.refl fun r hm₁ => ?_
  refine along_bind (along_more only_credentialWrite) ?_
  rintro h₂ (e | _) hm₂
  · refine along_bind (editRule_restoreAccount (hwritten.more (hm₁.trans hm₂))) fun h₃ _ hfailed => ?_
    refine along_bind (along_more only_credentialBack) fun h₄ _ hm₄ => ?_
    exact along_bind editRule_rollbackLDAP fun h₅ _ hm₅ =>
      ⟨fun _ => (hfailed.more hm₄).more hm₅, by simp⟩
  · exact ⟨by simp, fun _ => hwritten.more (hm₁.trans hm₂)⟩

theorem editRule_finishChange {limiterKey : String} {accounts : List Account}
    (hwritten : Written acc h) :
    Along EditRule Ended (finishChange ctx limiterKey accounts) h := by
  refine along_read rfl More.refl fun _ hm₁ => along_read rfl hm₁ fun _ hm₂ => ?_
  exact (hwritten.more hm₂).ended rfl

theorem editRule_applyChange {req : ChangePasswordRequest} {accounts : List Account}
    {limiterKey : String} {rewrapped : Option (Nat × Box Nat)} {imap smtp : Box String}
    (hnone : writes h = []) (hread : ∀ orig, acc = some orig → ∃ v ∈ h, ReadAccount orig v) :
    Along EditRule Ended
      (applyChange ctx req accounts acc limiterKey userDN rewrapped imap smtp) h := by
  refine along_read rfl More.refl fun r hm => ?_
  rcases r with e | _
  · dsimp only
    split <;> exact .nothing (hm.writes_eq.trans hnone)
  have hread' : ∀ orig, acc = some orig → ∃ v ∈ h ++ [⟨.ldapChangePassword userDN req.newPassword,
      .ok ()⟩], ReadAccount orig v := fun orig hacc => by
    obtain ⟨v, hv, hreadv⟩ := hread orig hacc
    exact ⟨v, List.mem_append_left _ hv, hreadv⟩
  refine along_bind (editRule_syncAccount (hm.writes_eq.trans hnone) hread') ?_
  rintro h₂ (_ | saved) ⟨hfailed, hwritten⟩
  · exact hfailed rfl _ rfl
  rcases rewrapped with _ | ⟨salt, box⟩
  · exact editRule_finishChange (hwritten rfl)
  refine along_bind (editRule_syncCredential (hwritten rfl)) ?_
  rintro h₃ (_ | _) ⟨hfailed', hwritten'⟩
  · exact hfailed' rfl _ rfl
  · exact editRule_finishChange (hwritten' rfl)

theorem editRule_verifyAndApply {req : ChangePasswordRequest} {accounts : List Account}
    {limiterKey : String} (hnone : writes h = [])
    (hread : ∀ orig, acc = some orig → ∃ v ∈ h, ReadAccount orig v) :
    Along EditRule Ended (verifyAndApply P ctx req accounts acc limiterKey userDN) h := by
  refine along_read rfl More.refl fun r hm₁ => ?_
  rcases r with e | _
  · dsimp only
    split
    · exact along_read rfl hm₁ fun _ hm₂ => .nothing (hm₂.writes_eq.trans hnone)
    · exact .nothing (hm₁.writes_eq.trans hnone)
  refine along_bind (along_apart_accounts (uses_rewrapDEK ctx _ _) rfl) ?_
  rintro h₂ (e | rewrapped) hm₂
  · exact .nothing ((hm₁.trans hm₂).writes_eq.trans hnone)
  refine along_read rfl (hm₁.trans hm₂) fun r hm₃ => ?_
  rcases r with e | imap
  · exact .nothing (hm₃.writes_eq.trans hnone)
  refine along_read rfl hm₃ fun r hm₄ => ?_
  rcases r with e | smtp
  · exact .nothing (hm₄.writes_eq.trans hnone)
  refine editRule_applyChange (hm₄.writes_eq.trans hnone) fun orig hacc => ?_
  obtain ⟨v, hv, hreadv⟩ := hread orig hacc
  exact ⟨v, hm₄.isPrefix.subset hv, hreadv⟩

/-- `ChangePassword` writes the row on what it has read, and back if the credential fails. -/
theorem editRule_changePassword (ctx? : Option AuthContext)
    (body : Except BodyErr ChangePasswordRequest) :
    Along EditRule Ended (changePassword P ctx? body) [] := by
  rcases ctx? with _ | ctx
  · exact .nothing rfl
  unfold changePassword
  dsimp only
  split
  · exact .nothing rfl
  rcases body with e | r
  · exact .nothing rfl
  dsimp only
  split
  · exact .nothing rfl
  refine along_read rfl More.refl fun list hm₁ => ?_
  rcases list with e | accounts
  · exact .nothing hm₁.writes_eq
  dsimp only
  split
  · exact .nothing hm₁.writes_eq
  refine along_read rfl hm₁ fun blocked hm₂ => ?_
  split
  · exact .nothing hm₂.writes_eq
  refine along_read rfl hm₂ fun dn hm₃ => ?_
  rcases dn with e | dn
  · exact .nothing hm₃.writes_eq
  refine editRule_verifyAndApply hm₃.writes_eq fun orig hacc => ?_
  refine ⟨⟨.listAccounts ctx.email ctx.dek, .ok accounts⟩, by simp, .inl ⟨_, _, accounts, rfl, ?_⟩⟩
  exact List.mem_of_find?_eq_some hacc

end Handlers

/-- The requests that change an account, and the clock. -/
def Request.onAccounts : Request → Bool
  | changePassword _ _ | updateAccount _ _ _ | setDefaultAccount _ _ | env (.tick _) => true
  | _ => false

/-- **The requests on accounts** keep the rule, whatever their calls answer. -/
theorem editRule_prog (P : Params) {req : Request} (hreq : req.onAccounts = true) :
    Along EditRule Ended (req.prog P) [] := by
  cases req with
  | changePassword ctx body => exact editRule_changePassword ctx body
  | updateAccount ctx id body => exact editRule_updateAccount ctx id body
  | setDefaultAccount ctx id => exact editRule_setDefaultAccount ctx id
  | env step =>
    cases step with
    | tick d => exact along_read rfl More.refl fun _ hm => .nothing hm.writes_eq
    | _ => cases hreq
  | _ => cases hreq

end E2Mail.Backend
