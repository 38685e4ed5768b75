import E2Mail.Backend.Footprint

/-!
# A password change is all or nothing

One `ChangePassword` request, uninterrupted, with any choice of its fallible
steps failing: an error leaves the LDAP passwords, the stored account passwords
and the credentials as they were, and a success has changed them together.

A fault hits the first execution of its step; the writes that undo a change
come later and succeed.

* `syncAccount_spec`, `syncCredential_spec` — the two local writes with their
  compensations;
* `applyChange_spec` — the LDAP write around them;
* `changePassword_atomic` — the request.
-/

namespace E2Mail.Backend

open Lib

/-! ## Faults -/

/-- The steps that can be made to fail. -/
inductive Step where
  | userDN | verifyUserBind | ldapChange | updateAccount | getCredential | writeCredential
  deriving DecidableEq

/-- The step a call belongs to. -/
def Op.step : Op → Option Step
  | userDN _ => some .userDN
  | verifyUserBind _ _ => some .verifyUserBind
  | ldapChangePassword _ _ => some .ldapChange
  | updateAccount _ _ => some .updateAccount
  | getUserCredential _ => some .getCredential
  | updateUserCredential _ | createUserCredential _ => some .writeCredential
  | _ => none

/-- The steps still to fail, with their errors. -/
abbrev Faults : Type := Step → Option Err

/-- A step fails once. -/
def Faults.after (f : Faults) (o : Op) : Faults := fun s => if o.step = some s then none else f s

theorem Faults.after_eq_none {f : Faults} {o : Op} {s : Step} (h : f s = none ∨ o.step = some s) :
    f.after o s = none := by
  rw [Faults.after]
  split
  · rfl
  · rename_i hne
    exact h.resolve_right hne

/-- A call under faults: the first of its step fails, if it is to. -/
def execOnce (P : Params) (o : Op) (s : World × Faults) : Ans o × (World × Faults) :=
  match (o.step.bind s.2).bind (failWith · o) with
  | some r => (r, s.1, s.2.after o)
  | none => ((exec P o s.1).1, (exec P o s.1).2, s.2.after o)

section Rules

variable {P : Params} {α : Type} {Q : α → World × Faults → Prop} {o : Op} {k : Ans o → Handler α}
  {w : World} {f : Faults}

/-- A call that is not to fail. -/
theorem post_clean (hf : o.step.bind f = none)
    (h : Post (execOnce P) Q (k (exec P o w).1) ((exec P o w).2, f.after o)) :
    Post (execOnce P) Q (call o >>= k) (w, f) := by
  refine Post.step ?_
  have hexec : execOnce P o (w, f) = ((exec P o w).1, (exec P o w).2, f.after o) := by
    simp only [execOnce, hf, Option.bind_none]
  rw [hexec]
  exact h

/-- A call that may fail, leaving the world as it was. -/
theorem post_call (hok : Post (execOnce P) Q (k (exec P o w).1) ((exec P o w).2, f.after o))
    (hfail : ∀ e r, failWith e o = some r → Post (execOnce P) Q (k r) (w, f.after o)) :
    Post (execOnce P) Q (call o >>= k) (w, f) := by
  refine Post.step ?_
  rcases hr : (o.step.bind f).bind (failWith · o) with _ | r
  · have hexec : execOnce P o (w, f) = ((exec P o w).1, (exec P o w).2, f.after o) := by
      simp only [execOnce, hr]
    rw [hexec]
    exact hok
  · have hexec : execOnce P o (w, f) = (r, w, f.after o) := by
      simp only [execOnce, hr]
    rw [hexec]
    obtain ⟨e, -, he⟩ := Option.bind_eq_some_iff.mp hr
    exact hfail e r he

/-- A call that ends a program and may fail, leaving the world as it was. -/
theorem post_last {Q : Ans o → World × Faults → Prop} (hok : Q (exec P o w).1 ((exec P o w).2, f.after o))
    (hfail : ∀ e r, failWith e o = some r → Q r (w, f.after o)) :
    Post (execOnce P) Q (call o) (w, f) :=
  post_call (k := pure) (Post.ret hok) fun e r hr => Post.ret (hfail e r hr)

end Rules

/-! ## What a change may change -/

/-- A row's id with the passwords stored in it. -/
def AccountRow.stored (r : AccountRow) : String × Secret × Secret :=
  (r.id, r.acc.encIMAPPassword, r.acc.encSMTPPassword)

/-- The passwords stored in the account rows, of all owners. -/
def World.storedPasswords (w : World) : List (String × Secret × Secret) :=
  w.accounts.rows.map AccountRow.stored

/-- Nothing a password change writes has changed. -/
structure Unchanged (w w' : World) : Prop where
  ldap : w'.ldap = w.ldap
  users : w'.users = w.users
  stored : w'.storedPasswords = w.storedPasswords

/-- What a successful change of the account `acc` has changed. -/
structure Changed (P : Params) (ctx : AuthContext) (req : ChangePasswordRequest)
    (acc : Option Account) (w w' : World) : Prop where
  /-- LDAP has the new password -/
  ldap : ∃ dn, P.userDN (pwEmail P ctx.email acc) = .ok dn ∧
    w'.ldap = Function.update w.ldap dn (some req.newPassword)
  /-- the other accounts' stored passwords are the same -/
  others : w'.storedPasswords.filter (fun p => acc.map Account.id ≠ some p.1) =
    w.storedPasswords.filter (fun p => acc.map Account.id ≠ some p.1)
  /-- the login identity's new password unwraps the data key it had -/
  login : isLoginIdentity P ctx.email acc = true → ∃ c,
    w'.users (P.ownerID ctx.email) = some c ∧ c.unwrap req.newPassword = some ctx.dek ∧
      ∀ c₀, w.users (P.ownerID ctx.email) = some c₀ →
        c.unwrap req.newPassword = some c₀.wrappedDEK.body
  /-- for another account the wrapped data key is untouched -/
  secondary : isLoginIdentity P ctx.email acc = false → w'.users = w.users

/-! ## The stored passwords under updates -/

section Stored

variable {P : Params} {w : World}

theorem stored_updateAccount (a : Account) (dek : Nat) (h : a.id ≠ "") :
    (w.updateAccount P a dek).2.storedPasswords = w.accounts.rows.map fun r =>
      if r.isOf P a.userEmail a.id then (r.id, a.encIMAPPassword, a.encSMTPPassword)
      else r.stored := by
  rw [World.storedPasswords, rows_updateAccount dek h, List.map_map]
  refine List.map_congr_left fun r _ => ?_
  simp only [Function.comp_apply]
  split <;> rfl

/-- Two maps of a list agree after a filter that tells their values apart nowhere. -/
theorem filter_map_congr {α β : Type} {l : List α} {g g' : α → β} {p : β → Bool}
    (h : ∀ a ∈ l, g a = g' a ∨ (p (g a) = false ∧ p (g' a) = false)) :
    (l.map g).filter p = (l.map g').filter p := by
  induction l with
  | nil => rfl
  | cons a l ih =>
    have hrest := ih fun b hb => h b (List.mem_cons_of_mem _ hb)
    rw [List.map_cons, List.map_cons, List.filter_cons, List.filter_cons, hrest]
    rcases h a List.mem_cons_self with heq | ⟨hg, hg'⟩
    · rw [heq]
    · simp only [hg, hg', Bool.false_eq_true, if_false]

/-- Updating an account leaves the other accounts' stored passwords alone. -/
theorem stored_updateAccount_others (a : Account) (dek : Nat) :
    (w.updateAccount P a dek).2.storedPasswords.filter (fun p => some a.id ≠ some p.1) =
      w.storedPasswords.filter (fun p => some a.id ≠ some p.1) := by
  by_cases h : a.id = ""
  · rw [World.updateAccount, if_pos h]
  rw [stored_updateAccount a dek h]
  refine filter_map_congr fun r _ => ?_
  by_cases hr : r.isOf P a.userEmail a.id = true
  · obtain ⟨-, hid⟩ := of_decide_eq_true hr
    refine .inr ⟨?_, ?_⟩
    · rw [if_pos hr]
      simp [hid]
    · simp [AccountRow.stored, hid]
  · exact .inl (if_neg hr)

/-- An account as it was read: its row is stored, with its passwords. -/
def ReadFrom (P : Params) (w : World) (owner : String) (a : Account) : Prop :=
  a.userEmail = owner ∧ ∃ r ∈ w.accounts.rows, r.isOf P owner a.id = true ∧
    r.stored = (a.id, a.encIMAPPassword, a.encSMTPPassword)

/-- Updating an account and writing the read one back restores every stored password. -/
theorem stored_restore {owner : String} {a a' : Account} {dek dek' : Nat} {w' : World}
    (hread : ReadFrom P w owner a) (hid : a'.id = a.id) (howner : a'.userEmail = a.userEmail)
    (hne : a.id ≠ "") (hw' : w'.accounts = (w.updateAccount P a' dek).2.accounts) :
    (w'.updateAccount P a dek').2.storedPasswords = w.storedPasswords := by
  obtain ⟨hemail, r₀, hr₀, hof, hstored⟩ := hread
  rw [stored_updateAccount a dek' hne, hw', rows_updateAccount dek (hid ▸ hne), List.map_map]
  refine List.map_congr_left fun r hr => ?_
  simp only [Function.comp_apply, howner, hid]
  by_cases hmatch : r.isOf P a.userEmail a.id = true
  · -- the one row of this id is the one that was read
    have hkey : r = r₀ := Table.eq_of_key hr hr₀
      ((of_decide_eq_true hmatch).2.trans (of_decide_eq_true hof).2.symm)
    have hmatch' : (r.overwrite a' dek w.now).isOf P a.userEmail a.id = true := hmatch
    rw [if_pos hmatch, if_pos hmatch', hkey, hstored]
    exact congrArg (·, a.encIMAPPassword, a.encSMTPPassword) (of_decide_eq_true hof).2
  · rw [if_neg hmatch, if_neg hmatch]

/-- The accounts `ListAccounts` answers are read from their rows. -/
theorem readFrom_of_listAccounts {owner : String} {dek : Nat} {accounts : List Account}
    (h : w.listAccounts P owner dek = .ok accounts) {a : Account} (ha : a ∈ accounts) :
    ReadFrom P w owner a := by
  obtain ⟨r, hrow, hof, rfl⟩ := row_of_listAccounts h ha
  exact ⟨rfl, r, hrow, hof, rfl⟩

end Stored

/-! ## The local writes -/

section Specs

variable {P : Params} {ctx : AuthContext} {userDN oldPassword : String} {w : World} {f : Faults}

/-- The world with an LDAP password written. -/
def World.withLDAP (w : World) (dn password : String) : World :=
  { w with ldap := Function.update w.ldap dn (some password) }

theorem rollbackLDAP_spec (hf : f .ldapChange = none) :
    Post (execOnce P) (fun _ s => s.1 = w.withLDAP userDN oldPassword)
      (rollbackLDAP userDN oldPassword) (w, f) :=
  post_clean hf rfl

/-- What the account write leaves: the row with its new passwords, or the LDAP write undone. -/
theorem syncAccount_spec {acc : Option Account} {imap smtp : Box String}
    (hf : f .ldapChange = none) :
    Post (execOnce P) (fun saved s =>
        match saved, acc with
        | none, _ => s.1 = w.withLDAP userDN oldPassword
        | some _, none => s = (w, f)
        | some _, some orig => orig.id ≠ "" ∧ s.2 .ldapChange = none ∧ s.2 .updateAccount = none ∧
          s.1 = (w.updateAccount P (orig.withPasswords imap smtp) ctx.dek).2)
      (syncAccount ctx userDN oldPassword acc imap smtp) (w, f) := by
  rcases acc with _ | orig
  · exact Post.ret rfl
  -- a failed write undoes the LDAP write
  have hundo : ∀ w' f', f' .ldapChange = none → w' = w →
      Post (execOnce P) (fun (saved : Option (Option Account)) s =>
          saved = none ∧ s.1 = w.withLDAP userDN oldPassword)
        (rollbackLDAP userDN oldPassword >>= fun _ => pure none) (w', f') := by
    rintro w' f' hf' rfl
    exact Post.bind (rollbackLDAP_spec hf') fun _ s hs => Post.ret ⟨rfl, hs⟩
  have hldap : f.after (.updateAccount (orig.withPasswords imap smtp) ctx.dek) .ldapChange = none :=
    Faults.after_eq_none (.inl hf)
  have hupdate : f.after (.updateAccount (orig.withPasswords imap smtp) ctx.dek) .updateAccount =
      none := Faults.after_eq_none (.inr rfl)
  refine post_call ?_ ?_
  · by_cases hid : (orig.withPasswords imap smtp).id = ""
    · rw [exec_updateAccount_refused ctx.dek hid]
      refine Post.mono (hundo w _ hldap rfl) ?_
      rintro _ s ⟨rfl, hs⟩
      exact hs
    · rw [exec_updateAccount ctx.dek hid]
      exact Post.ret ⟨hid, hldap, hupdate, rfl⟩
  · intro e r hr
    cases hr
    refine Post.mono (hundo w _ hldap rfl) ?_
    rintro _ s ⟨rfl, hs⟩
    exact hs

/-- A credential with this salt and wrapped key is stored for the owner. -/
def Holds (P : Params) (email : String) (salt : Nat) (box : Box Nat) (w : World) : Prop :=
  ∃ c, w.users (P.ownerID email) = some c ∧ c.salt = salt ∧ c.wrappedDEK = box

/-- A credential as it was read: the stored row, under the owner it was asked for. -/
def CredentialRead (P : Params) (w : World) (email : String) : Option UserCredential → Prop
  | none => True
  | some c => ∃ c₀, w.users (P.ownerID email) = some c₀ ∧ c = { c₀ with userEmail := email }

/-- What the write of a credential leaves: the new credential, or nothing changed. -/
def Wrote (P : Params) (c : UserCredential) (w : World) : Res Unit → World → Prop
  | .ok (), w' => w'.ldap = w.ldap ∧ w'.accounts = w.accounts ∧
    Holds P c.userEmail c.salt c.wrappedDEK w'
  | .error _, w' => w' = w

theorem wrote_withCredential {c c' : UserCredential} (hsalt : c'.salt = c.salt)
    (hbox : c'.wrappedDEK = c.wrappedDEK) : Wrote P c w (.ok ()) (w.withCredential P c c') :=
  ⟨ldap_withCredential c c', accounts_withCredential c c', c', users_withCredential c c', hsalt, hbox⟩

theorem wrote_createUserCredential (c : UserCredential) :
    Wrote P c w (exec P (.createUserCredential c) w).1 (exec P (.createUserCredential c) w).2 := by
  by_cases hrefused : c.userEmail = "" ∨ w.users (P.ownerID c.userEmail) ≠ none
  · obtain ⟨e, hexec⟩ := exec_createUserCredential_refused hrefused
    rw [hexec]
    exact rfl
  · obtain ⟨hemail, hrow⟩ := not_or.mp hrefused
    rw [exec_createUserCredential hemail (not_not.mp hrow)]
    exact wrote_withCredential rfl rfl

theorem wrote_updateUserCredential {c c₀ : UserCredential}
    (hrow : w.users (P.ownerID c.userEmail) = some c₀) :
    Wrote P c w (exec P (.updateUserCredential c) w).1 (exec P (.updateUserCredential c) w).2 := by
  by_cases hemail : c.userEmail = ""
  · rw [exec_updateUserCredential_refused hemail]
    exact rfl
  · rw [exec_updateUserCredential hemail hrow]
    exact wrote_withCredential rfl rfl

theorem after_writeCredential {o : Op} (ho : o.step = some .writeCredential) :
    (∀ st, f st = none → f.after o st = none) ∧ f.after o .writeCredential = none :=
  ⟨fun _ hst => Faults.after_eq_none (.inl hst), Faults.after_eq_none (.inr ho)⟩

/-- The credential write stores the new credential or changes nothing. -/
theorem writeCredential_spec {c : UserCredential} {oldCred : Option UserCredential}
    (hold : CredentialRead P w c.userEmail oldCred) :
    Post (execOnce P) (fun r s => Wrote P c w r s.1 ∧ (∀ st, f st = none → s.2 st = none) ∧
        s.2 .writeCredential = none)
      (writeCredential oldCred.isSome c) (w, f) := by
  rcases oldCred with _ | old
  · refine post_last (o := .createUserCredential c) ?_ ?_
    · exact ⟨wrote_createUserCredential c, after_writeCredential rfl⟩
    · intro e r hr
      cases hr
      exact ⟨rfl, after_writeCredential rfl⟩
  · obtain ⟨c₀, hrow, -⟩ := hold
    refine post_last (o := .updateUserCredential c) ?_ ?_
    · exact ⟨wrote_updateUserCredential hrow, after_writeCredential rfl⟩
    · intro e r hr
      cases hr
      exact ⟨rfl, after_writeCredential rfl⟩

/-- Writing the read credential back changes nothing. -/
theorem restoreCredential_spec {email : String} {oldCred : Option UserCredential}
    (hold : CredentialRead P w email oldCred) (hf : f .writeCredential = none) :
    Post (execOnce P) (fun _ s => s.1 = w ∧ ∀ st, f st = none → s.2 st = none)
      (restoreCredential oldCred) (w, f) := by
  rcases oldCred with _ | old
  · exact Post.ret ⟨rfl, fun _ hst => hst⟩
  · obtain ⟨c₀, hrow, rfl⟩ := hold
    refine post_clean hf (Post.ret ⟨?_, fun st hst => Faults.after_eq_none (.inl hst)⟩)
    by_cases hemail : email = ""
    · rw [exec_updateUserCredential_refused hemail]
    · rw [exec_updateUserCredential (c := { c₀ with userEmail := email }) hemail hrow]
      show w.withCredential P { c₀ with userEmail := email } c₀ = w
      rw [World.withCredential, Function.update_eq_self_iff.mpr hrow.symm]

/-- Writing the read account back changes the accounts only. -/
theorem restoreAccount_spec {orig : Option Account} (hf : orig ≠ none → f .updateAccount = none) :
    Post (execOnce P) (fun _ s => s.1 = (match orig with
          | none => w
          | some a => (w.updateAccount P a ctx.dek).2) ∧ ∀ st, f st = none → s.2 st = none)
      (restoreAccount ctx orig) (w, f) := by
  rcases orig with _ | a
  · exact Post.ret ⟨rfl, fun _ hst => hst⟩
  · exact post_clean (hf (by simp))
      (Post.ret ⟨rfl, fun st hst => Faults.after_eq_none (.inl hst)⟩)

/-- What the credential step leaves after its lookup: the new credential, or everything
written before undone. -/
theorem replaceCredential_spec {orig : Option Account} {oldCred : Option UserCredential}
    {c : UserCredential} (hold : CredentialRead P w c.userEmail oldCred)
    (hl : f .ldapChange = none) (hu : orig ≠ none → f .updateAccount = none) :
    Post (execOnce P) (fun ok s =>
        if ok then s.1.ldap = w.ldap ∧ s.1.accounts = w.accounts ∧
          Holds P c.userEmail c.salt c.wrappedDEK s.1
        else s.1.ldap = Function.update w.ldap userDN (some oldPassword) ∧ s.1.users = w.users ∧
          s.1.accounts = (match orig with
            | none => w
            | some a => (w.updateAccount P a ctx.dek).2).accounts)
      (do
        match ← writeCredential oldCred.isSome c with
        | .ok () => return true
        | .error _ =>
          restoreAccount ctx orig
          restoreCredential oldCred
          rollbackLDAP userDN oldPassword
          return false) (w, f) := by
  refine Post.bind (writeCredential_spec hold) ?_
  rintro (e | ⟨⟩) ⟨w₁, f₁⟩ ⟨h₁, hgone, hwrite⟩
  · obtain rfl := h₁
    refine Post.bind (restoreAccount_spec fun h => hgone _ (hu h)) ?_
    rintro _ ⟨w₂, f₂⟩ ⟨h₂, hgone₂⟩
    -- undoing the account write leaves the credentials and LDAP alone
    have hframe : w₂.users = w₁.users ∧ w₂.ldap = w₁.ldap := by
      obtain rfl : w₂ = _ := h₂
      rcases orig with _ | a
      · exact ⟨rfl, rfl⟩
      · have hfr := updateAccount_frame (P := P) a ctx.dek w₁
        exact ⟨hfr.users nofun, hfr.ldap nofun⟩
    have hold₂ : CredentialRead P w₂ c.userEmail oldCred := by
      rw [CredentialRead.eq_def, hframe.1]
      exact hold
    refine Post.bind (restoreCredential_spec hold₂ (hgone₂ _ hwrite)) ?_
    rintro _ ⟨w₃, f₃⟩ ⟨h₃, hgone₃⟩
    obtain rfl : w₃ = w₂ := h₃
    refine Post.bind (rollbackLDAP_spec (hgone₃ _ (hgone₂ _ (hgone _ hl)))) ?_
    rintro _ ⟨w₄, f₄⟩ h₄
    obtain rfl : w₄ = _ := h₄
    refine Post.ret ⟨?_, hframe.1, ?_⟩
    · rw [World.withLDAP, hframe.2]
    · have hacc := congrArg World.accounts h₂
      exact hacc
  · exact Post.ret h₁

/-- What the credential step leaves: the new credential, or everything written before undone. -/
theorem syncCredential_spec {orig : Option Account} {salt : Nat} {box : Box Nat}
    (hl : f .ldapChange = none) (hu : orig ≠ none → f .updateAccount = none) :
    Post (execOnce P) (fun ok s =>
        if ok then s.1.ldap = w.ldap ∧ s.1.accounts = w.accounts ∧ Holds P ctx.email salt box s.1
        else s.1.ldap = Function.update w.ldap userDN (some oldPassword) ∧ s.1.users = w.users ∧
          s.1.accounts = (match orig with
            | none => w
            | some a => (w.updateAccount P a ctx.dek).2).accounts)
      (syncCredential ctx userDN oldPassword orig salt box) (w, f) := by
  have hgone : ∀ st, f st = none → f.after (.getUserCredential ctx.email) st = none :=
    fun st hst => Faults.after_eq_none (.inl hst)
  refine post_call ?_ ?_
  · refine replaceCredential_spec (c := ⟨ctx.email, salt, box⟩) ?_ (hgone _ hl)
      fun h => hgone _ (hu h)
    show CredentialRead P w ctx.email ((w.users (P.ownerID ctx.email)).map _)
    rcases hrow : w.users (P.ownerID ctx.email) with _ | c₀
    · trivial
    · exact ⟨c₀, hrow, rfl⟩
  · -- a failed lookup reads as no row, and the insert is refused if there is one
    intro e r hr
    cases hr
    exact replaceCredential_spec (c := ⟨ctx.email, salt, box⟩) trivial (hgone _ hl)
      fun h => hgone _ (hu h)

/-! ## The request -/

/-- The three stores a password change writes are as they were. -/
structure Kept (w w' : World) : Prop where
  ldap : w'.ldap = w.ldap
  users : w'.users = w.users
  accounts : w'.accounts = w.accounts

/-- How a response tells what has happened to the stores. -/
def Outcome (P : Params) (ctx : AuthContext) (req : ChangePasswordRequest)
    (acc : Option Account) (w : World) : Resp → World → Prop
  | .success _, w' => Changed P ctx req acc w w'
  | .error _ _, w' => Unchanged w w'

theorem Kept.refl (w : World) : Kept w w := ⟨rfl, rfl, rfl⟩

theorem Kept.trans {w w₁ w₂ : World} (h₁ : Kept w w₁) (h₂ : Kept w₁ w₂) : Kept w w₂ :=
  ⟨h₂.ldap.trans h₁.ldap, h₂.users.trans h₁.users, h₂.accounts.trans h₁.accounts⟩

theorem Kept.stored {w w' : World} (h : Kept w w') : w'.storedPasswords = w.storedPasswords := by
  rw [World.storedPasswords, h.accounts, World.storedPasswords]

theorem Kept.unchanged {w w' : World} (h : Kept w w') : Unchanged w w' :=
  ⟨h.ldap, h.users, h.stored⟩

/-- A call outside the three stores, or one that only asks. -/
def Op.sparesStores (o : Op) : Bool :=
  o.isRead || !([.users, .accounts, .ldap].contains o.part)

theorem exec_kept {o : Op} (h : o.sparesStores = true) (w : World) : Kept w (exec P o w).2 := by
  rcases (Bool.or_eq_true _ _).mp h with hread | hpart
  · rw [exec_read hread]
    exact Kept.refl w
  · have hf := exec_frame P o w
    have hne : ∀ p ∈ [Part.users, .accounts, .ldap], o.part ≠ p := by
      rintro p hp rfl
      simp only [List.contains_iff_mem.mpr hp, Bool.not_true, Bool.false_eq_true] at hpart
    exact ⟨hf.ldap (hne _ (by simp)), hf.users (hne _ (by simp)), hf.accounts (hne _ (by simp))⟩

/-- A call that spares the stores: the rest starts with them as they were, and the answer is
either a failure or about the world it was made in. -/
theorem post_spares {α : Type} {Q : α → World × Faults → Prop} {o : Op} {k : Ans o → Handler α}
    (ho : o.sparesStores = true)
    (h : ∀ (r : Ans o) w', Kept w w' → (r = (exec P o w).1 ∨ ∃ e, failWith e o = some r) →
      Post (execOnce P) Q (k r) (w', f.after o)) :
    Post (execOnce P) Q (call o >>= k) (w, f) :=
  post_call (h _ _ (exec_kept ho w) (.inl rfl)) fun e _ hr => h _ _ (Kept.refl w) (.inr ⟨e, hr⟩)

theorem finishChange_spec {limiterKey : String} {accounts : List Account} :
    Post (execOnce P) (fun r s => Kept w s.1 ∧ ∃ data, r = .success data)
      (finishChange ctx limiterKey accounts) (w, f) := by
  refine post_spares rfl fun _ w₁ h₁ _ => ?_
  refine post_spares rfl fun _ w₂ h₂ _ => ?_
  exact Post.ret ⟨h₁.trans h₂, _, rfl⟩

/-- The data key is wrapped anew for the login identity, and for no other account. -/
def Rewrapped (P : Params) (ctx : AuthContext) (req : ChangePasswordRequest)
    (acc : Option Account) : Option (Nat × Box Nat) → Prop
  | none => isLoginIdentity P ctx.email acc = false
  | some (salt, box) => isLoginIdentity P ctx.email acc = true ∧
    box.decrypt (.master req.newPassword salt) = some ctx.dek

/-- Writing the old LDAP password back undoes the first write. -/
theorem ldap_rolledBack {ldap : String → Option String} {dn old new : String}
    (h : ldap dn = some old) :
    Function.update (Function.update ldap dn (some new)) dn (some old) = ldap := by
  rw [Function.update_idem, Function.update_eq_self_iff]
  exact h.symm

/-- What the account write leaves, when it is not refused. -/
theorem syncAccount_saved {acc : Option Account} {imap smtp : Box String}
    (hf : f .ldapChange = none) :
    Post (execOnce P) (fun saved s =>
        (saved = none → s.1 = w.withLDAP userDN oldPassword) ∧
        (saved ≠ none → s.2 .ldapChange = none ∧ (acc ≠ none → s.2 .updateAccount = none) ∧
          (∀ a, acc = some a → a.id ≠ "") ∧ s.1.ldap = w.ldap ∧ s.1.users = w.users ∧
          s.1.accounts = (match acc with
            | none => w
            | some a => (w.updateAccount P (a.withPasswords imap smtp) ctx.dek).2).accounts))
      (syncAccount ctx userDN oldPassword acc imap smtp) (w, f) := by
  refine Post.mono (syncAccount_spec hf) ?_
  rintro (_ | saved) ⟨w', f'⟩ h
  · exact ⟨fun _ => h, fun hne => absurd rfl hne⟩
  · refine ⟨nofun, fun _ => ?_⟩
    rcases acc with _ | a
    · obtain ⟨rfl, rfl⟩ := Prod.mk.inj h
      exact ⟨hf, fun hne => absurd rfl hne, fun a ha => absurd ha (by simp), rfl, rfl, rfl⟩
    · obtain ⟨hid, hl, hu, hw⟩ := h
      have hfr := updateAccount_frame (P := P) (a.withPasswords imap smtp) ctx.dek w
      have hw : w' = (w.updateAccount P (a.withPasswords imap smtp) ctx.dek).2 := hw
      refine ⟨hl, fun _ => hu, ?_, ?_, ?_, ?_⟩
      · rintro _ ⟨⟩
        exact hid
      · rw [hw]
        exact hfr.ldap nofun
      · rw [hw]
        exact hfr.users nofun
      · rw [hw]

/-- Steps 3 and 4, from a state where the old password was just accepted. -/
theorem applyChange_spec {req : ChangePasswordRequest} {accounts : List Account}
    {acc : Option Account} {limiterKey : String} {rewrapped : Option (Nat × Box Nat)}
    {imap smtp : Box String} (hdn : P.userDN (pwEmail P ctx.email acc) = .ok userDN)
    (hbind : w.ldap userDN = some req.oldPassword)
    (hread : ∀ a, acc = some a → ReadFrom P w ctx.email a)
    (hwrap : Rewrapped P ctx req acc rewrapped)
    (hdek : ∀ c, w.users (P.ownerID ctx.email) = some c → c.wrappedDEK.body = ctx.dek) :
    Post (execOnce P) (fun r s => Outcome P ctx req acc w r s.1)
      (applyChange ctx req accounts acc limiterKey userDN rewrapped imap smtp) (w, f) := by
  refine post_call ?_ ?_
  swap
  · -- LDAP refuses: nothing has been written yet
    intro e r hr
    cases hr
    dsimp only
    split <;> exact Post.ret (Kept.refl w).unchanged
  have hclean : f.after (.ldapChangePassword userDN req.newPassword) .ldapChange = none :=
    Faults.after_eq_none (.inr rfl)
  refine Post.bind (syncAccount_saved (w := w.withLDAP userDN req.newPassword) hclean) ?_
  rintro saved ⟨w₂, f₂⟩ ⟨hrefused, hsaved⟩
  rcases saved with _ | saved
  · -- the account write failed and LDAP was put back
    obtain rfl : w₂ = _ := hrefused rfl
    exact Post.ret ⟨ldap_rolledBack hbind, rfl, rfl⟩
  obtain ⟨hl, hu, hid, hldap, husers, haccounts⟩ := hsaved nofun
  -- what is said of the account rows does not depend on LDAP
  have hothers : w₂.storedPasswords.filter (fun p => acc.map Account.id ≠ some p.1) =
      w.storedPasswords.filter (fun p => acc.map Account.id ≠ some p.1) := by
    rw [World.storedPasswords, haccounts]
    rcases acc with _ | a
    · rfl
    · exact stored_updateAccount_others (w := w.withLDAP userDN req.newPassword)
        (a.withPasswords imap smtp) ctx.dek
  rcases rewrapped with _ | ⟨salt, box⟩
  · refine Post.mono finishChange_spec ?_
    rintro r ⟨w₃, f₃⟩ ⟨hkept, data, rfl⟩
    refine ⟨⟨userDN, hdn, hkept.ldap.trans hldap⟩, hkept.stored ▸ hothers, ?_, ?_⟩
    · intro hlogin
      rw [show isLoginIdentity P ctx.email acc = false from hwrap] at hlogin
      cases hlogin
    · exact fun _ => hkept.users.trans husers
  · obtain ⟨hlogin, hopen⟩ := hwrap
    refine Post.bind (syncCredential_spec hl hu) ?_
    rintro ok ⟨w₃, f₃⟩ h₃
    cases ok with
    | true =>
      obtain ⟨hldap₃, haccounts₃, c, hrow, hsalt, hbox⟩ := h₃
      refine Post.mono finishChange_spec ?_
      rintro r ⟨w₄, f₄⟩ ⟨hkept, data, rfl⟩
      have hunwrap : c.unwrap req.newPassword = some ctx.dek := by
        rw [UserCredential.unwrap, hsalt, hbox]
        exact hopen
      refine ⟨⟨userDN, hdn, ?_⟩, ?_, fun _ => ⟨c, ?_, hunwrap, ?_⟩, ?_⟩
      · rw [hkept.ldap, hldap₃, hldap]
        rfl
      · rw [hkept.stored, World.storedPasswords, haccounts₃]
        exact hothers
      · rw [hkept.users]
        exact hrow
      · intro c₀ hrow₀
        rw [hunwrap, hdek c₀ hrow₀]
      · intro hsecond
        rw [hsecond] at hlogin
        cases hlogin
    | false =>
      -- the credential write failed and everything before it was undone
      obtain ⟨hldap₃, husers₃, haccounts₃⟩ := h₃
      refine Post.ret ⟨?_, husers₃.trans husers, ?_⟩
      · rw [hldap₃, hldap]
        exact ldap_rolledBack hbind
      · rw [World.storedPasswords, haccounts₃]
        rcases acc with _ | a
        · rw [haccounts]
          rfl
        · exact stored_restore (w := w.withLDAP userDN req.newPassword)
            (hread a rfl) (by rfl) (by rfl) (hid a rfl) haccounts

/-- What follows steps that spare the stores. -/
theorem Outcome.of_kept {req : ChangePasswordRequest} {acc : Option Account} {w₁ w' : World}
    {r : Resp} (hkept : Kept w w₁) (h : Outcome P ctx req acc w₁ r w') :
    Outcome P ctx req acc w r w' := by
  cases r with
  | success data =>
    obtain ⟨⟨dn, hdn, hldap⟩, hothers, hlogin, hsecond⟩ := h
    refine ⟨⟨dn, hdn, hkept.ldap ▸ hldap⟩, hkept.stored ▸ hothers, ?_, ?_⟩
    · rw [← hkept.users]
      exact hlogin
    · rw [← hkept.users]
      exact hsecond
  | error status message =>
    obtain ⟨hldap, husers, hstored⟩ := h
    exact ⟨hldap.trans hkept.ldap, husers.trans hkept.users, hstored.trans hkept.stored⟩

theorem rewrapDEK_spec {req : ChangePasswordRequest} {acc : Option Account} :
    Post (execOnce P) (fun r s => Kept w s.1 ∧ ∀ x, r = .ok x → Rewrapped P ctx req acc x)
      (rewrapDEK ctx req.newPassword (isLoginIdentity P ctx.email acc)) (w, f) := by
  rw [rewrapDEK]
  rcases hlogin : isLoginIdentity P ctx.email acc with _ | _
  · refine Post.ret ⟨Kept.refl w, ?_⟩
    rintro x ⟨⟩
    exact hlogin
  · refine post_spares rfl fun r w₁ h₁ _ => ?_
    rcases r with e | salt
    · exact Post.ret ⟨h₁, nofun⟩
    · refine post_spares rfl fun r w₂ h₂ hr => ?_
      rcases r with e | box
      · exact Post.ret ⟨h₁.trans h₂, nofun⟩
      · refine Post.ret ⟨h₁.trans h₂, ?_⟩
        rintro x ⟨⟩
        refine ⟨hlogin, ?_⟩
        rcases hr with hr | ⟨e, he⟩
        · cases hr
          exact Box.decrypt_mk _ _ _
        · cases he

/-- Steps 1 to 4. -/
theorem verifyAndApply_spec {req : ChangePasswordRequest} {accounts : List Account}
    {acc : Option Account} {limiterKey : String}
    (hdn : P.userDN (pwEmail P ctx.email acc) = .ok userDN)
    (hread : ∀ a, acc = some a → ReadFrom P w ctx.email a)
    (hdek : ∀ c, w.users (P.ownerID ctx.email) = some c → c.wrappedDEK.body = ctx.dek) :
    Post (execOnce P) (fun r s => Outcome P ctx req acc w r s.1)
      (verifyAndApply P ctx req accounts acc limiterKey userDN) (w, f) := by
  refine post_spares rfl fun r w₁ h₁ hr => ?_
  rcases r with e | ⟨⟩
  · dsimp only
    split
    · exact post_spares rfl fun _ w₂ h₂ _ => Post.ret (h₁.trans h₂).unchanged
    · exact Post.ret h₁.unchanged
  have hbind : w.ldap userDN = some req.oldPassword := by
    by_contra hne
    rcases hr with hr | ⟨e, he⟩
    · simp only [exec, if_neg hne] at hr
      cases hr
    · cases he
  refine Post.bind rewrapDEK_spec ?_
  rintro (e | rewrapped) ⟨w₂, f₂⟩ ⟨h₂, hwrap⟩
  · exact Post.ret (h₁.trans h₂).unchanged
  refine post_spares rfl fun r w₃ h₃ _ => ?_
  have h₁₃ : Kept w w₃ := (h₁.trans h₂).trans h₃
  rcases r with e | imap
  · exact Post.ret h₁₃.unchanged
  refine post_spares rfl fun r w₄ h₄ _ => ?_
  have hkept : Kept w w₄ := h₁₃.trans h₄
  rcases r with e | smtp
  · exact Post.ret hkept.unchanged
  refine Post.mono (applyChange_spec hdn (hkept.ldap ▸ hbind) ?_ (hwrap _ rfl)
    (hkept.users ▸ hdek)) fun r s h => Outcome.of_kept hkept h
  intro a ha
  rw [ReadFrom, hkept.accounts]
  exact hread a ha

end Specs

/-- A request that is not valid is answered with an error. -/
theorem validate_eq_some {req : ChangePasswordRequest} {resp : Resp}
    (h : req.validate = some resp) : ∃ status message, resp = .error status message := by
  have hall : ∀ r ∈ req.validate, ∃ status message, r = .error status message := by
    rw [ChangePasswordRequest.validate]
    split_ifs <;> simp [badRequest]
  exact hall resp h

/-- The account the request names is one of the list. -/
theorem target_mem {P : Params} {req : ChangePasswordRequest} {owner : String}
    {accounts : List Account} {a : Account} (h : req.target P owner accounts = some a) :
    a ∈ accounts := List.mem_of_find?_eq_some h

/-- One `ChangePassword` request is all or nothing, whichever of its steps fail: an error
response leaves LDAP, the stored passwords and the credentials as they were; a success
has changed the account the request names, as `Changed` says. The session's data key is
the one its owner's credential wraps, if there is one. -/
theorem changePassword_atomic (P : Params) (f : Faults) (w : World) (ctx? : Option AuthContext)
    (body : Except BodyErr ChangePasswordRequest)
    (hdek : ∀ ctx c, ctx? = some ctx → w.users (P.ownerID ctx.email) = some c →
      c.wrappedDEK.body = ctx.dek) :
    Post (execOnce P) (fun r s =>
        match r with
        | .error _ _ => Unchanged w s.1
        | .success _ => ∃ ctx req accounts, ctx? = some ctx ∧ body = .ok req ∧
          w.listAccounts P ctx.email ctx.dek = .ok accounts ∧
          Changed P ctx req (req.target P ctx.email accounts) w s.1)
      (changePassword P ctx? body) (w, f) := by
  have hsame : Unchanged w w := (Kept.refl w).unchanged
  rcases ctx? with _ | ctx
  · exact Post.ret hsame
  unfold changePassword
  dsimp only
  split
  · exact Post.ret hsame
  rcases body with e | req
  · cases e <;> exact Post.ret hsame
  dsimp only
  split
  · rename_i resp hresp
    obtain ⟨status, message, rfl⟩ := validate_eq_some hresp
    exact Post.ret hsame
  refine post_spares rfl fun r w₁ h₁ hr => ?_
  rcases r with e | accounts
  · exact Post.ret h₁.unchanged
  have haccounts : w.listAccounts P ctx.email ctx.dek = .ok accounts := by
    rcases hr with hr | ⟨e, he⟩
    · exact hr.symm
    · cases he
  dsimp only
  split
  · exact Post.ret h₁.unchanged
  refine post_spares rfl fun r w₂ h₂ _ => ?_
  split
  · exact Post.ret (h₁.trans h₂).unchanged
  refine post_spares rfl fun r w₃ h₃ hr => ?_
  have hkept : Kept w w₃ := (h₁.trans h₂).trans h₃
  rcases r with e | userDN
  · exact Post.ret hkept.unchanged
  have hdn : P.userDN (pwEmail P ctx.email (req.target P ctx.email accounts)) = .ok userDN := by
    rcases hr with hr | ⟨e, he⟩
    · exact hr.symm
    · cases he
  refine Post.mono (verifyAndApply_spec hdn ?_ (hkept.users ▸ hdek ctx · rfl)) ?_
  · intro a ha
    rw [ReadFrom, hkept.accounts]
    exact readFrom_of_listAccounts haccounts (target_mem ha)
  · intro r s h
    have h := Outcome.of_kept hkept h
    cases r with
    | success data => exact ⟨ctx, req, accounts, rfl, rfl, haccounts, h⟩
    | error status message => exact h

/-! ## A run -/

/-- An account of the owner `ann`, with the old password stored. -/
def annsAccount (id email : String) : Account where
  id := id
  userEmail := "ann"
  label := ""
  email := email
  imapHost := ""
  imapPort := 0
  imapUseTLS := true
  imapAllowInsecureTLS := false
  smtpHost := ""
  smtpPort := 0
  smtpUseTLS := true
  smtpAllowInsecureTLS := false
  username := email
  encIMAPPassword := .sealed ⟨.dek 1, 1, "old-password"⟩
  encSMTPPassword := .sealed ⟨.dek 1, 2, "old-password"⟩
  isDefault := id = "u"
  sortOrder := 0

/-- One owner with a credential, an LDAP entry and two accounts. -/
def annsWorld : World where
  now := 0
  fresh := 10
  mu := false
  users o := if o = "ann" then some ⟨"ann", 7, ⟨.master "old-password" 7, 0, 1⟩⟩ else none
  twoFA _ := none
  passkeys := Table.empty
  accounts := ⟨[⟨"ann", 1, annsAccount "u" "ann"⟩, ⟨"ann", 1, annsAccount "v" "bob"⟩], by decide⟩
  pending _ := none
  ceremonies _ := none
  sessions _ := none
  failures _ := []
  ldap dn := if dn = "uid=ann" then some "old-password" else none
  imapAccepts _ := true

/-- The owner's session. -/
def annsContext : AuthContext := ⟨"s", "ann", 1⟩

/-- A change of the login identity's password. -/
def annsChange : ChangePasswordRequest where
  oldPassword := "old-password"
  newPassword := "new-password"
  confirmPassword := "new-password"

theorem changePassword_atomic_anns :
    (∃ accounts, annsWorld.listAccounts .sample "ann" 1 = .ok accounts ∧
      Changed .sample annsContext annsChange (annsChange.target .sample "ann" accounts) annsWorld
        ((changePassword .sample (some annsContext) (.ok annsChange)).eval (execOnce .sample)
          (annsWorld, fun _ => none)).2.1) ∧
    Unchanged annsWorld
      ((changePassword .sample (some annsContext) (.ok annsChange)).eval (execOnce .sample)
        (annsWorld, fun s => if s = .writeCredential then some { text := "busy" } else none)).2.1 := by
  have hdek : ∀ ctx c, some annsContext = some ctx →
      annsWorld.users (Params.sample.ownerID ctx.email) = some c → c.wrappedDEK.body = ctx.dek := by
    rintro _ c ⟨⟩ hc
    have hrow : annsWorld.users (Params.sample.ownerID annsContext.email) =
        some ⟨"ann", 7, ⟨.master "old-password" 7, 0, 1⟩⟩ := by decide +kernel
    rw [hrow] at hc
    cases hc
    rfl
  refine ⟨?_, ?_⟩
  · have h := changePassword_atomic .sample (fun _ => none) annsWorld (some annsContext)
      (.ok annsChange) hdek
    have hr : ((changePassword .sample (some annsContext) (.ok annsChange)).eval (execOnce .sample)
        (annsWorld, fun _ => none)).1 = .success (.done "changed") := by decide +kernel
    rw [Post, hr] at h
    obtain ⟨ctx, req, accounts, hctx, hreq, haccounts, hchanged⟩ := h
    cases hctx
    cases hreq
    exact ⟨accounts, haccounts, hchanged⟩
  · have h := changePassword_atomic .sample
      (fun s => if s = .writeCredential then some { text := "busy" } else none) annsWorld
      (some annsContext) (.ok annsChange) hdek
    have hr : ((changePassword .sample (some annsContext) (.ok annsChange)).eval (execOnce .sample)
        (annsWorld, fun s => if s = .writeCredential then some { text := "busy" } else none)).1 =
          syncFailed := by decide +kernel
    rw [Post, hr] at h
    exact h

end E2Mail.Backend
