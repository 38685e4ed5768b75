import E2Mail.Backend.PasswordAtomic

/-!
# Password changes in parallel

Several sessions of one owner change passwords at once, and nothing fails. A
request writes the LDAP entry first and the wrapped data key later; nothing ties
the two writes of one request together.

* `WriteRule` — what a request has behind it when it writes;
* `InOrder` — no request overtakes another between its two writes;
* `password_synced` — then the password LDAP accepts in the end unwraps the
  owner's data key;
* `password_lost` — a run with an overtaking, after which it does not.
-/

namespace E2Mail.Backend

open Lib

/-- A call that does not fail. -/
def faultless (P : Params) : Sem World Op Ans := fun o w r w' => enabled o w ∧ (r, w') = exec P o w

/-- An answer that turns a password change from its course. -/
def setback : Event Op Ans → Bool
  | ⟨.updateAccount _ _, .error _⟩ => true
  | ⟨.getUserCredential _, .error _⟩ => true
  | ⟨.getUserCredential _, .ok none⟩ => true
  | ⟨.updateUserCredential _, .error _⟩ => true
  | ⟨.createUserCredential _, .error _⟩ => true
  | _ => false

/-- The history has a setback. -/
def SetBack (h : List (Event Op Ans)) : Prop := ∃ v ∈ h, setback v = true

/-! ## What a request has behind it when it writes -/

section Rule

variable (P : Params) (email : String) (dek : Nat) (req : ChangePasswordRequest)

/-- The history shows the accounts, and the LDAP entry of the one the request names. -/
def Resolved (dn : String) (accounts : List Account) (h : List (Event Op Ans)) : Prop :=
  ⟨.listAccounts email dek, .ok accounts⟩ ∈ h ∧
    ⟨.userDN (pwEmail P email (req.target P email accounts)), .ok dn⟩ ∈ h

/-- Behind the write of an account: the account was listed. -/
def AccountGrounds (a : Account) (h : List (Event Op Ans)) : Prop :=
  ∃ accounts, ⟨.listAccounts email dek, .ok accounts⟩ ∈ h ∧ ∃ b ∈ accounts, b.id = a.id

/-- Behind the write of an LDAP password: it is the request's first. -/
def LDAPGrounds (dn password : String) (h : List (Event Op Ans)) : Prop :=
  password = req.newPassword ∧ (∀ v ∈ h, v.1.step ≠ some .ldapChange) ∧
    ∃ accounts, Resolved P email dek req dn accounts h

/-- Behind the write of a credential: the data key was wrapped under the new
password, and that password was written to the identity's entry. -/
def CredentialGrounds (c : UserCredential) (h : List (Event Op Ans)) : Prop :=
  c.userEmail = email ∧
    ⟨.wrapDEK (.master req.newPassword c.salt) dek, .ok c.wrappedDEK⟩ ∈ h ∧
    ∃ dn accounts r, Resolved P email dek req dn accounts h ∧
      isLoginIdentity P email (req.target P email accounts) = true ∧
      ⟨.ldapChangePassword dn req.newPassword, r⟩ ∈ h

/-- What holds at each call of a request. -/
def WriteRule (h : List (Event Op Ans)) : Op → Prop
  | .updateAccount a _ => SetBack h ∨ AccountGrounds email dek a h
  | .ldapChangePassword dn password => SetBack h ∨ LDAPGrounds P email dek req dn password h
  | .updateUserCredential c => SetBack h ∨ CredentialGrounds P email dek req c h
  | .createUserCredential _ => SetBack h
  | .getUserCredential owner => SetBack h ∨ owner = email
  | o => o.sparesStores = true

/-- What holds at the end of a request: if it wrote LDAP for the identity, it wrote a credential. -/
def EndRule (h : List (Event Op Ans)) : Prop :=
  SetBack h ∨ (∀ v ∈ h, ∀ dn password, v ≠ ⟨.ldapChangePassword dn password, .ok ()⟩) ∨
    (∃ accounts, ⟨.listAccounts email dek, .ok accounts⟩ ∈ h ∧
      isLoginIdentity P email (req.target P email accounts) = false) ∨
    ∃ v ∈ h, v.1.step = some .writeCredential

end Rule

section Along

variable {P : Params} {email : String} {dek : Nat} {req : ChangePasswordRequest}
  {h : List (Event Op Ans)}

theorem SetBack.append {h h' : List (Event Op Ans)} (hb : SetBack h) : SetBack (h ++ h') := by
  obtain ⟨v, hv, hback⟩ := hb
  exact ⟨v, List.mem_append_left _ hv, hback⟩

theorem SetBack.last {v : Event Op Ans} (hv : setback v = true) : SetBack (h ++ [v]) :=
  ⟨v, by simp, hv⟩

theorem writeRule_of_spares {o : Op} (ho : o.sparesStores = true) (hstep : o.step = none) :
    WriteRule P email dek req h o := by
  cases o with
  | updateAccount a dek' => cases hstep
  | ldapChangePassword dn password => cases hstep
  | updateUserCredential c => cases hstep
  | createUserCredential c => cases hstep
  | getUserCredential owner => cases hstep
  | _ => exact ho

/-- Calls a password change may make at all. -/
def Op.ofChange (o : Op) : Bool :=
  o.sparesStores || o.step == some .ldapChange || o.step == some .updateAccount ||
    o.step == some .writeCredential

/-- After a setback the rule asks for nothing more. -/
theorem writeRule_of_setBack (hb : SetBack h) {o : Op} (ho : o.ofChange = true) :
    WriteRule P email dek req h o := by
  cases o with
  | updateAccount a dek' => exact .inl hb
  | ldapChangePassword dn password => exact .inl hb
  | updateUserCredential c => exact .inl hb
  | createUserCredential c => exact hb
  | getUserCredential owner => exact .inl hb
  | _ => first | rfl | cases ho

/-- What follows a setback keeps to the rule. -/
theorem along_setBack {α : Type} {p : Handler α} (hp : p.Only fun o => o.ofChange = true)
    (hb : SetBack h) : Along (WriteRule P email dek req) (fun h _ => SetBack h) p h :=
  Along.of_only hp hb (fun _ _ _ _ hb => hb.append) fun _ _ ho hb => writeRule_of_setBack hb ho

/-- A program that spares the stores keeps to the rule. -/
theorem along_spares {α : Type} {p : Handler α} {I : List (Event Op Ans) → Prop}
    (hp : p.Only fun o => o.sparesStores = true ∧ o.step = none) (hI : I h)
    (hgrow : ∀ h v, I h → I (h ++ [v])) :
    Along (WriteRule P email dek req) (fun h _ => I h) p h :=
  Along.of_only hp hI (fun _ _ _ _ hI => hgrow _ _ hI) fun _ _ ho _ =>
    writeRule_of_spares ho.1 ho.2

/-! ## The programs keep to the rule -/

section Only

variable {ctx : AuthContext} {userDN oldPassword : String}

theorem only_rollbackLDAP :
    (rollbackLDAP userDN oldPassword).Only fun o => o.ofChange = true :=
  ⟨rfl, fun _ => trivial⟩

theorem only_restoreAccount (orig : Option Account) :
    (restoreAccount ctx orig).Only fun o => o.ofChange = true := by
  rcases orig with _ | a
  · exact trivial
  · exact ⟨rfl, fun _ => trivial⟩

theorem only_restoreCredential (oldCred : Option UserCredential) :
    (restoreCredential oldCred).Only fun o => o.ofChange = true := by
  rcases oldCred with _ | c
  · exact trivial
  · exact ⟨rfl, fun _ => trivial⟩

theorem only_undo (orig : Option Account) (oldCred : Option UserCredential) :
    (do
      restoreAccount ctx orig
      restoreCredential oldCred
      rollbackLDAP userDN oldPassword
      return false : Handler Bool).Only fun o => o.ofChange = true := by
  refine Prog.Only.bind (only_restoreAccount orig) fun _ => ?_
  refine Prog.Only.bind (only_restoreCredential oldCred) fun _ => ?_
  exact Prog.Only.bind only_rollbackLDAP fun _ => trivial

/-- The credential step after its lookup. -/
theorem only_replaceCredential (ctx : AuthContext) (userDN oldPassword : String) (orig : Option Account)
    (oldCred : Option UserCredential) (c : UserCredential) :
    (do
      match ← writeCredential oldCred.isSome c with
      | .ok () => return true
      | .error _ =>
        restoreAccount ctx orig
        restoreCredential oldCred
        rollbackLDAP userDN oldPassword
        return false : Handler Bool).Only fun o => o.ofChange = true := by
  have hwrite : (writeCredential oldCred.isSome c).Only fun o => o.ofChange = true := by
    rw [writeCredential]
    split <;> exact ⟨rfl, fun _ => trivial⟩
  refine Prog.Only.bind hwrite fun r => ?_
  cases r with
  | ok _ => exact trivial
  | error e => exact only_undo orig oldCred

theorem only_finishChange {limiterKey : String} {accounts : List Account} :
    (finishChange ctx limiterKey accounts).Only fun o => o.sparesStores = true ∧ o.step = none :=
  ⟨⟨rfl, rfl⟩, fun _ => ⟨⟨rfl, rfl⟩, fun _ => trivial⟩⟩

end Only

/-- No LDAP password written yet. -/
def NoLDAP (h : List (Event Op Ans)) : Prop := ∀ v ∈ h, v.1.step ≠ some .ldapChange

theorem NoLDAP.snoc (hno : NoLDAP h) {o : Op} {r : Ans o} (ho : o.step ≠ some .ldapChange) :
    NoLDAP (h ++ [⟨o, r⟩]) := by
  intro v hv
  rcases List.mem_append.mp hv with hv | hv
  · exact hno v hv
  · obtain rfl := List.mem_singleton.mp hv
    exact ho

theorem NoLDAP.endRule (hno : NoLDAP h) : EndRule P email dek req h := by
  refine .inr (.inl fun v hv dn password heq => hno v hv ?_)
  rw [heq]
  rfl

variable {sid dn oldPassword : String} {accounts : List Account}

/-- The data key of a request, re-wrapped in its history. -/
def RewrappedIn (dek : Nat) (newPassword : String) (login : Bool) :
    Option (Nat × Box Nat) → List (Event Op Ans) → Prop
  | none, _ => login = false
  | some (salt, box), h => login = true ∧ ⟨.wrapDEK (.master newPassword salt) dek, .ok box⟩ ∈ h

theorem along_rewrapDEK (login : Bool) (hno : NoLDAP h) :
    Along (WriteRule P email dek req)
      (fun h' r => h <+: h' ∧ NoLDAP h' ∧ ∀ x, r = .ok x → RewrappedIn dek req.newPassword login x h')
      (rewrapDEK ⟨sid, email, dek⟩ req.newPassword login) h := by
  rw [rewrapDEK]
  cases login with
  | false =>
    refine ⟨List.prefix_rfl, hno, ?_⟩
    rintro x ⟨⟩
    rfl
  | true =>
    refine Along.step rfl fun r => ?_
    have hno₁ := hno.snoc (o := .generateSalt) (r := r) (by simp [Op.step])
    rcases r with e | salt
    · exact ⟨List.prefix_append .., hno₁, by simp⟩
    refine Along.step rfl fun r => ?_
    have hno₂ := hno₁.snoc (o := .wrapDEK (.master req.newPassword salt) dek) (r := r)
      (by simp [Op.step])
    rcases r with e | box
    · exact ⟨by simp [List.append_assoc], hno₂, by simp⟩
    · refine ⟨by simp [List.append_assoc], hno₂, ?_⟩
      rintro x ⟨⟩
      exact ⟨rfl, by simp⟩

theorem along_syncAccount {acc : Option Account} {imap smtp : Box String}
    (hlist : ⟨.listAccounts email dek, .ok accounts⟩ ∈ h) (hacc : ∀ a, acc = some a → a ∈ accounts) :
    Along (WriteRule P email dek req)
      (fun h' saved => h <+: h' ∧ (saved = none → SetBack h'))
      (syncAccount ⟨sid, email, dek⟩ dn oldPassword acc imap smtp) h := by
  rcases acc with _ | orig
  · exact ⟨List.prefix_rfl, by simp⟩
  refine Along.step (.inr ⟨accounts, hlist, orig, hacc orig rfl, rfl⟩) fun r => ?_
  rcases r with e | saved
  · have hb : SetBack (h ++ [⟨.updateAccount (orig.withPasswords imap smtp) dek, .error e⟩]) :=
      SetBack.last rfl
    refine along_bind (R := fun h' _ => h <+: h' ∧ SetBack h') ?_ fun h' _ hh' => ?_
    · refine Along.of_only only_rollbackLDAP ⟨List.prefix_append .., hb⟩ ?_ ?_
      · exact fun h' o r _ hh' => ⟨hh'.1.trans (List.prefix_append ..), hh'.2.append⟩
      · exact fun h' o ho hh' => writeRule_of_setBack hh'.2 ho
    · exact ⟨hh'.1, fun _ => hh'.2⟩
  · exact ⟨List.prefix_append .., by simp⟩

theorem along_syncCredential {orig : Option Account} {salt : Nat} {box : Box Nat}
    (hcred : CredentialGrounds P email dek req ⟨email, salt, box⟩ h) :
    Along (WriteRule P email dek req)
      (fun h' ok => SetBack h' ∨ ok = true ∧ ∃ v ∈ h', v.1.step = some .writeCredential)
      (syncCredential ⟨sid, email, dek⟩ dn oldPassword orig salt box) h := by
  have hlost : ∀ h' (oldCred : Option UserCredential), SetBack h' →
      Along (WriteRule P email dek req)
        (fun h' ok => SetBack h' ∨ ok = true ∧ ∃ v ∈ h', v.1.step = some .writeCredential) _ h' :=
    fun h' oldCred hb => Along.mono (fun _ _ h => h) (fun _ _ h => .inl h)
      (along_setBack (only_replaceCredential ⟨sid, email, dek⟩ dn oldPassword orig oldCred
        ⟨email, salt, box⟩) hb)
  refine Along.step (.inr rfl) fun r => ?_
  rcases r with e | _ | old
  · exact hlost _ none (SetBack.last rfl)
  · exact hlost _ none (SetBack.last rfl)
  -- the row was found, so it is updated
  obtain ⟨hemail, hwrap, dn', accounts, r', ⟨hlist, hdn⟩, hlogin, hldap⟩ := hcred
  have hgrounds : CredentialGrounds P email dek req ⟨email, salt, box⟩
      (h ++ [⟨.getUserCredential email, .ok (some old)⟩]) :=
    ⟨hemail, List.mem_append_left _ hwrap, dn', accounts, r', ⟨List.mem_append_left _ hlist,
      List.mem_append_left _ hdn⟩, hlogin, List.mem_append_left _ hldap⟩
  refine Along.step (P := WriteRule P email dek req) (o := .updateUserCredential ⟨email, salt, box⟩)
    (.inr hgrounds) fun r => ?_
  cases r with
  | ok _ => exact .inr ⟨rfl, _, List.mem_append_right _ (List.mem_singleton_self _), rfl⟩
  | error e =>
    exact Along.mono (fun _ _ h => h) (fun _ _ h => .inl h)
      (along_setBack (only_undo orig (some old)) (SetBack.last rfl))

theorem SetBack.of_prefix {h' : List (Event Op Ans)} (hb : SetBack h) (hp : h <+: h') :
    SetBack h' := by
  obtain ⟨h₂, rfl⟩ := hp
  exact hb.append

/-- Finishing a change keeps what holds at its end. -/
theorem along_finishChange {limiterKey : String} (hend : SetBack h ∨
      (∃ accounts, ⟨.listAccounts email dek, .ok accounts⟩ ∈ h ∧
        isLoginIdentity P email (req.target P email accounts) = false) ∨
      ∃ v ∈ h, v.1.step = some .writeCredential) :
    Along (WriteRule P email dek req) (fun h' _ => EndRule P email dek req h')
      (finishChange ⟨sid, email, dek⟩ limiterKey accounts) h := by
  refine Along.mono (fun _ _ h => h) (fun h' _ hp => ?_)
    (along_spares (I := fun h' => h <+: h') only_finishChange List.prefix_rfl
      fun _ _ hp => hp.trans (List.prefix_append ..))
  have hp : h <+: h' := hp
  rcases hend with hb | ⟨accounts, hlist, hlogin⟩ | ⟨v, hv, hstep⟩
  · exact .inl (hb.of_prefix hp)
  · exact .inr (.inr (.inl ⟨accounts, hp.subset hlist, hlogin⟩))
  · exact .inr (.inr (.inr ⟨v, hp.subset hv, hstep⟩))

theorem along_applyChange {limiterKey : String} {rewrapped : Option (Nat × Box Nat)}
    {imap smtp : Box String} (hno : NoLDAP h) (hres : Resolved P email dek req dn accounts h)
    (hwrap : RewrappedIn dek req.newPassword
      (isLoginIdentity P email (req.target P email accounts)) rewrapped h) :
    Along (WriteRule P email dek req) (fun h' _ => EndRule P email dek req h')
      (applyChange ⟨sid, email, dek⟩ req accounts (req.target P email accounts) limiterKey dn
        rewrapped imap smtp) h := by
  refine Along.step (.inr ⟨rfl, hno, accounts, hres⟩) fun r => ?_
  rcases r with e | ⟨⟩
  · -- LDAP refused, so nothing was written to it
    have hend : EndRule P email dek req (h ++ [⟨.ldapChangePassword dn req.newPassword, .error e⟩]) := by
      refine .inr (.inl fun v hv dn' pw heq => ?_)
      rcases List.mem_append.mp hv with hv | hv
      · refine hno v hv ?_
        rw [heq]
        rfl
      · rw [List.mem_singleton.mp hv] at heq
        cases heq
    dsimp only
    split <;> exact hend
  set h₁ := h ++ [⟨Op.ldapChangePassword dn req.newPassword, .ok ()⟩] with hh₁
  have hsub : h ⊆ h₁ := List.subset_append_left ..
  have hwritten : ⟨.ldapChangePassword dn req.newPassword, .ok ()⟩ ∈ h₁ := by simp [hh₁]
  refine along_bind (along_syncAccount (hsub hres.1) fun a ha => target_mem ha) ?_
  rintro h₂ saved ⟨hp, hlost⟩
  rcases saved with _ | saved
  · exact .inl (hlost rfl)
  rcases rewrapped with _ | ⟨salt, box⟩
  · exact along_finishChange (.inr (.inl ⟨accounts, hp.subset (hsub hres.1), hwrap⟩))
  have hgrounds : CredentialGrounds P email dek req ⟨email, salt, box⟩ h₂ :=
    ⟨rfl, hp.subset (hsub hwrap.2), dn, accounts, .ok (), ⟨hp.subset (hsub hres.1),
      hp.subset (hsub hres.2)⟩, hwrap.1, hp.subset hwritten⟩
  refine along_bind (along_syncCredential hgrounds) ?_
  rintro h₃ ok (hb | ⟨rfl, hcred⟩)
  · cases ok with
    | true => exact along_finishChange (.inl hb)
    | false => exact .inl hb
  · exact along_finishChange (.inr (.inr hcred))

theorem along_verifyAndApply {limiterKey : String} (hno : NoLDAP h)
    (hres : Resolved P email dek req dn accounts h) :
    Along (WriteRule P email dek req) (fun h' _ => EndRule P email dek req h')
      (verifyAndApply P ⟨sid, email, dek⟩ req accounts (req.target P email accounts) limiterKey dn)
      h := by
  refine Along.step rfl fun r => ?_
  have hno₁ := hno.snoc (o := .verifyUserBind dn req.oldPassword) (r := r) (by simp [Op.step])
  rcases r with e | ⟨⟩
  · dsimp only
    split
    · refine Along.step rfl fun r => ?_
      exact (hno₁.snoc (o := .recordFailure limiterKey) (r := r) (by simp [Op.step])).endRule
    · exact hno₁.endRule
  refine along_bind (along_rewrapDEK _ hno₁) ?_
  rintro h₂ (e | rewrapped) ⟨hp, hno₂, hwrap⟩
  · exact hno₂.endRule
  refine Along.step rfl fun r => ?_
  have hno₃ := hno₂.snoc (o := .encrypt (.dek dek) req.newPassword) (r := r) (by simp [Op.step])
  rcases r with e | imap
  · exact hno₃.endRule
  refine Along.step rfl fun r => ?_
  have hno₄ := hno₃.snoc (o := .encrypt (.dek dek) req.newPassword) (r := r) (by simp [Op.step])
  rcases r with e | smtp
  · exact hno₄.endRule
  have hsub : h ⊆ h₂ := fun v hv => hp.subset (List.mem_append_left _ hv)
  refine along_applyChange hno₄ ⟨?_, ?_⟩ ?_
  · exact List.mem_append_left _ (List.mem_append_left _ (hsub hres.1))
  · exact List.mem_append_left _ (List.mem_append_left _ (hsub hres.2))
  · have hwrap := hwrap _ rfl
    rcases rewrapped with _ | ⟨salt, box⟩
    · exact hwrap
    · exact ⟨hwrap.1, List.mem_append_left _ (List.mem_append_left _ hwrap.2)⟩

/-- A change of the session `sid` keeps to the rule. -/
theorem along_changePassword :
    Along (WriteRule P email dek req) (fun h' _ => EndRule P email dek req h')
      (changePassword P (some ⟨sid, email, dek⟩) (.ok req)) [] := by
  have hno : NoLDAP [] := fun v hv => by cases hv
  unfold changePassword
  dsimp only
  split
  · exact hno.endRule
  split
  · exact hno.endRule
  refine Along.step rfl fun r => ?_
  have hno₁ := hno.snoc (o := .listAccounts email dek) (r := r) (by simp [Op.step])
  rcases r with e | accounts
  · exact hno₁.endRule
  dsimp only
  split
  · exact hno₁.endRule
  refine Along.step rfl fun r => ?_
  have hno₂ := hno₁.snoc (o := .blocked _ pwChangeMaxFailures pwChangeFailureWindow) (r := r)
    (by simp [Op.step])
  split
  · exact hno₂.endRule
  refine Along.step rfl fun r => ?_
  have hno₃ := hno₂.snoc (o := .userDN (pwEmail P email (req.target P email accounts))) (r := r)
    (by simp [Op.step])
  rcases r with e | dn
  · exact hno₃.endRule
  · exact along_verifyAndApply hno₃ ⟨by simp, by simp⟩

end Along

/-! ## Runs -/

variable {ι : Type}

/-- All requests are password changes of sessions of one owner. -/
def OneOwner (email : String) (dek : Nat) (reqs : ι → Request) : Prop :=
  ∀ i, ∃ sid body, reqs i = .changePassword (some ⟨sid, email, dek⟩) body

/-- The password of the LDAP entry unwraps the owner's data key. -/
def Synced (P : Params) (email : String) (dek : Nat) (dn : String) (w : World) : Prop :=
  ∃ password c, w.ldap dn = some password ∧ w.users (P.ownerID email) = some c ∧
    c.unwrap password = some dek

/-- The call writes the password of an LDAP entry. -/
def WritesEntry (dn : String) (e : Entry ι World Op Ans) : Prop :=
  ∃ password, e.op = .ldapChangePassword dn password

/-- The call writes a credential. -/
def WritesCredential (e : Entry ι World Op Ans) : Prop := e.op.step = some .writeCredential

/-- The writes of the requests do not cross. -/
structure InOrder [DecidableEq ι] (P : Params) (email : String) (dek : Nat) (dn : String)
    (reqs : ι → Request) (tr : List (Entry ι World Op Ans)) : Prop where
  /-- a request that writes the identity's entry is for the identity -/
  own : ∀ y ∈ tr, ∀ ctx req accounts, WritesEntry dn y →
    reqs y.who = .changePassword ctx (.ok req) →
    ⟨.listAccounts email dek, .ok accounts⟩ ∈ proj y.who tr →
    isLoginIdentity P email (req.target P email accounts) = true
  /-- when a request writes its credential, no other has written both the entry and its
  credential since this one wrote the entry -/
  order : ∀ x y z' z, [x, y, z', z].Sublist tr → WritesEntry dn x → WritesEntry dn y →
    WritesCredential z' → WritesCredential z → x.who = z.who → y.who = z'.who → x.who = y.who

/-- What holds at each call of a request of the pool. -/
def ChangeRule (P : Params) (email : String) (dek : Nat) (r : Request) (h : List (Event Op Ans))
    (o : Op) : Prop :=
  ∃ ctx req, r = .changePassword ctx (.ok req) ∧ WriteRule P email dek req h o

/-- What holds at the end of a request of the pool. -/
def ChangeEnd (P : Params) (email : String) (dek : Nat) (r : Request)
    (h : List (Event Op Ans)) : Prop :=
  ∀ ctx req, r = .changePassword ctx (.ok req) → EndRule P email dek req h

/-- What keeps password changes of the owner on course: accounts have ids, and the owner has a
credential. -/
structure Intact (P : Params) (email : String) (w : World) : Prop where
  ids : ∀ r ∈ w.accounts.rows, r.id ≠ ""
  credential : w.users (P.ownerID email) ≠ none

section Runs

variable {P : Params} {email dn : String} {dek : Nat} {reqs : ι → Request}

theorem along_ofOwner (hreqs : OneOwner email dek reqs) (i : ι) :
    Along (ChangeRule P email dek (reqs i)) (fun h _ => ChangeEnd P email dek (reqs i) h)
      ((reqs i).prog P) [] := by
  obtain ⟨sid, body, hreq⟩ := hreqs i
  rw [hreq]
  rcases body with e | req
  · -- a body that does not decode is answered without a call
    have hend : ChangeEnd P email dek (.changePassword (some ⟨sid, email, dek⟩) (.error e)) [] := by
      intro ctx req h
      cases h
    simp only [Request.prog, changePassword]
    split <;> exact hend
  · refine Along.mono ?_ ?_ along_changePassword
    · exact fun h o hrule => ⟨_, req, rfl, hrule⟩
    · rintro h _ hend ctx req' ⟨⟩
      exact hend

/-- Without a setback before it, a call is none, and keeps what keeps changes on course. -/
theorem intact_exec {req : ChangePasswordRequest} {h : List (Event Op Ans)} {o : Op} {w : World}
    (hemail : email ≠ "") (hrule : WriteRule P email dek req h o) (hback : ¬SetBack h)
    (hids : ∀ accounts, ⟨.listAccounts email dek, .ok accounts⟩ ∈ h → ∀ a ∈ accounts, a.id ≠ "")
    (hi : Intact P email w) :
    setback ⟨o, (exec P o w).1⟩ = false ∧ Intact P email (exec P o w).2 := by
  have hspares : o.sparesStores = true → Intact P email (exec P o w).2 := fun ho => by
    have hkept := exec_kept (P := P) ho w
    exact ⟨hkept.accounts ▸ hi.ids, hkept.users ▸ hi.credential⟩
  cases o with
  | updateAccount a dek' =>
    obtain ⟨accounts, hlist, b, hb, hid⟩ := hrule.resolve_left hback
    have hne : a.id ≠ "" := hid ▸ hids accounts hlist b hb
    rw [exec_updateAccount dek' hne]
    refine ⟨rfl, ?_, ?_⟩
    · intro r hr
      rw [rows_updateAccount dek' hne] at hr
      obtain ⟨r', hr', rfl⟩ := List.mem_map.mp hr
      split
      · exact hi.ids r' hr'
      · exact hi.ids r' hr'
    · rw [(updateAccount_frame a dek' w).users (by simp)]
      exact hi.credential
  | ldapChangePassword dn password => exact ⟨rfl, hi.ids, hi.credential⟩
  | updateUserCredential c =>
    obtain ⟨hc, -⟩ := hrule.resolve_left hback
    obtain ⟨c₀, hrow⟩ := Option.ne_none_iff_exists'.mp hi.credential
    have hrow' : w.users (P.ownerID c.userEmail) = some c₀ := hc.symm ▸ hrow
    rw [exec_updateUserCredential (hc ▸ hemail) hrow']
    refine ⟨rfl, by simpa using hi.ids, ?_⟩
    rw [← hc, users_withCredential]
    simp
  | createUserCredential c => exact absurd hrule hback
  | getUserCredential owner =>
    obtain rfl := hrule.resolve_left hback
    obtain ⟨c₀, hrow⟩ := Option.ne_none_iff_exists'.mp hi.credential
    refine ⟨?_, hi⟩
    simp only [exec, hrow]
    rfl
  | _ => exact ⟨rfl, hspares hrule⟩

variable [DecidableEq ι] {w : World} {tr : List (Entry ι World Op Ans)} {c : Conf ι World Op Ans Resp}

/-- The accounts a request has listed come from rows, so they have ids. -/
theorem ids_of_listed (hrun : Run (faultless P) (start P reqs w) tr c) {i : ι}
    (hall : ∀ e ∈ tr, Intact P email e.pre) {accounts : List Account}
    (hlist : ⟨.listAccounts email dek, .ok accounts⟩ ∈ proj i tr) {a : Account}
    (ha : a ∈ accounts) : a.id ≠ "" := by
  obtain ⟨e, he, -, hev⟩ := mem_proj.mp hlist
  have hexec := (hrun.sem_of_mem he).2
  have hi := hall e he
  obtain ⟨who, op, ans, pre, post⟩ := e
  cases hev
  have hread : pre.listAccounts P email dek = .ok accounts := (congrArg Prod.fst hexec).symm
  obtain ⟨-, r, hr, hof, -⟩ := readFrom_of_listAccounts hread ha
  have hid : r.id = a.id := (of_decide_eq_true hof).2
  exact hid ▸ hi.ids r hr

/-- In a run without faults nothing is turned from its course. -/
theorem run_onCourse (hreqs : OneOwner email dek reqs) (hemail : email ≠ "")
    (hw : Intact P email w) (hrun : Run (faultless P) (start P reqs w) tr c) :
    (∀ e ∈ tr, setback e.event = false ∧ Intact P email e.pre) ∧ Intact P email c.state := by
  refine hrun.invariant (I := fun tr w =>
    (∀ e ∈ tr, setback e.event = false ∧ Intact P email e.pre) ∧ Intact P email w)
    ⟨fun e he => absurd he List.not_mem_nil, hw⟩ ?_
  rintro tr c e hrun hstate ⟨k, hk⟩ ⟨-, hexec⟩ ⟨hall, hi⟩
  obtain ⟨ctx, req, -, hrule⟩ := hrun.along (along_ofOwner (P := P) hreqs) hk
  have hback : ¬SetBack (proj e.who tr) := by
    rintro ⟨v, hv, hset⟩
    obtain ⟨e', he', -, rfl⟩ := mem_proj.mp hv
    rw [(hall e' he').1] at hset
    cases hset
  have hstep := intact_exec hemail hrule hback
    (fun accounts hlist a ha => ids_of_listed hrun (fun e he => (hall e he).2) hlist ha) hi
  rw [← hexec] at hstep
  refine ⟨fun e' he' => ?_, hstep.2⟩
  rcases List.mem_append.mp he' with he' | he'
  · exact hall e' he'
  · obtain rfl := List.mem_singleton.mp he'
    exact ⟨hstep.1, hi⟩

/-- What a call of the run has behind it. -/
theorem rule_of_entry (hreqs : OneOwner email dek reqs) (hemail : email ≠ "")
    (hw : Intact P email w) (hrun : Run (faultless P) (start P reqs w) tr c)
    {pre post : List (Entry ι World Op Ans)} {e : Entry ι World Op Ans}
    (htr : tr = pre ++ e :: post) :
    ∃ ctx req, reqs e.who = .changePassword ctx (.ok req) ∧ ¬SetBack (proj e.who pre) ∧
      WriteRule P email dek req (proj e.who pre) e.op := by
  obtain ⟨c₁, hpre, -, ⟨k, hk⟩, -⟩ := hrun.cut htr
  obtain ⟨ctx, req, hreq, hrule⟩ := hpre.along (along_ofOwner (P := P) hreqs) hk
  refine ⟨ctx, req, hreq, ?_, hrule⟩
  rintro ⟨v, hv, hset⟩
  obtain ⟨e', he', -, rfl⟩ := mem_proj.mp hv
  rw [((run_onCourse hreqs hemail hw hpre).1 e' he').1] at hset
  cases hset

/-- An answer in a request's history is what `exec` answers in some state. -/
theorem answer_of_history (hrun : Run (faultless P) (start P reqs w) tr c) {i : ι} {o : Op}
    {r : Ans o} (h : ⟨o, r⟩ ∈ proj i tr) :
    ∃ e ∈ tr, e.who = i ∧ e.op = o ∧ r = (exec P o e.pre).1 := by
  obtain ⟨e, he, hwho, hev⟩ := mem_proj.mp h
  have hexec := (hrun.sem_of_mem he).2
  obtain ⟨who, op, ans, pre, post⟩ := e
  cases hev
  exact ⟨_, he, hwho, rfl, congrArg Prod.fst hexec⟩

/-- Behind the write of a credential: the data key is wrapped under the request's new
password, and the same request has written the identity's entry. -/
theorem entry_of_credential (hreqs : OneOwner email dek reqs) (hemail : email ≠ "")
    (hdn : P.userDN email = .ok dn) (hw : Intact P email w)
    (hrun : Run (faultless P) (start P reqs w) tr c) {pre post : List (Entry ι World Op Ans)}
    {z : Entry ι World Op Ans} (htr : tr = pre ++ z :: post) (hz : WritesCredential z) :
    (∃ x ∈ pre, x.who = z.who ∧ WritesEntry dn x) ∧ ∃ ctx req c,
      reqs z.who = .changePassword ctx (.ok req) ∧ z.op = .updateUserCredential c ∧
      c.userEmail = email ∧ c.unwrap req.newPassword = some dek := by
  obtain ⟨ctx, req, hreq, hback, hrule⟩ := rule_of_entry hreqs hemail hw hrun htr
  obtain ⟨c₁, hpre, -⟩ := hrun.cut htr
  obtain ⟨who, op, ans, zpre, zpost⟩ := z
  cases op with
  | updateUserCredential c =>
    obtain ⟨hc, hwrap, dn', accounts, r, ⟨-, hres⟩, hlogin, hldap⟩ := hrule.resolve_left hback
    refine ⟨?_, ctx, req, c, hreq, rfl, hc, ?_⟩
    · -- the identity's entry is the one looked up
      obtain ⟨e, -, -, -, hans⟩ := answer_of_history hpre hres
      have hdn' : P.userDN (pwEmail P email (req.target P email accounts)) = .ok dn' := hans.symm
      rw [pwEmail, hlogin, if_pos rfl, hdn] at hdn'
      cases hdn'
      obtain ⟨x, hx, hwho, hop, -⟩ := answer_of_history hpre hldap
      exact ⟨x, hx, hwho, _, hop⟩
    · obtain ⟨e, -, -, -, hans⟩ := answer_of_history hpre hwrap
      have hbox := Except.ok.inj hans
      rw [UserCredential.unwrap, hbox]
      exact Box.decrypt_mk _ _ _
  | createUserCredential c => exact absurd hrule hback
  | _ => cases hz

/-- Behind the write of an LDAP entry: it is the request's first, with its new password. -/
theorem first_of_entry (hreqs : OneOwner email dek reqs) (hemail : email ≠ "")
    (hw : Intact P email w) (hrun : Run (faultless P) (start P reqs w) tr c)
    {pre post : List (Entry ι World Op Ans)} {y : Entry ι World Op Ans}
    (htr : tr = pre ++ y :: post) (hy : WritesEntry dn y) :
    (∀ x ∈ pre, x.who = y.who → ¬WritesEntry dn x) ∧ ∃ ctx req,
      reqs y.who = .changePassword ctx (.ok req) ∧ y.op = .ldapChangePassword dn req.newPassword := by
  obtain ⟨ctx, req, hreq, hback, hrule⟩ := rule_of_entry hreqs hemail hw hrun htr
  obtain ⟨password, hop⟩ := hy
  rw [hop] at hrule
  obtain ⟨rfl, hfirst, -⟩ := hrule.resolve_left hback
  refine ⟨?_, ctx, req, hreq, hop⟩
  rintro x hx hwho ⟨pw, hxop⟩
  refine hfirst x.event (mem_proj.mpr ⟨x, hx, hwho, rfl⟩) ?_
  show x.op.step = _
  rw [hxop]
  rfl

/-- A finished request that wrote the identity's entry has written a credential. -/
theorem credential_of_entry (hreqs : OneOwner email dek reqs) (hemail : email ≠ "")
    (hw : Intact P email w) (hrun : Run (faultless P) (start P reqs w) tr c)
    (hdone : ∀ i, ∃ resp, c.procs i = .ret resp) (hin : InOrder P email dek dn reqs tr)
    {pre post : List (Entry ι World Op Ans)} {y : Entry ι World Op Ans}
    (htr : tr = pre ++ y :: post) (hy : WritesEntry dn y) :
    ∃ z ∈ tr, z.who = y.who ∧ WritesCredential z := by
  obtain ⟨-, ctx, req, hreq, hop⟩ := first_of_entry hreqs hemail hw hrun htr hy
  obtain ⟨resp, hret⟩ := hdone y.who
  have hend := hrun.along_ret (along_ofOwner (P := P) hreqs) hret ctx req hreq
  have hcourse := run_onCourse hreqs hemail hw hrun
  have hmem : y ∈ tr := htr ▸ List.mem_append_right _ List.mem_cons_self
  rcases hend with ⟨v, hv, hset⟩ | hnone | ⟨accounts, hlist, hsecond⟩ | ⟨v, hv, hstep⟩
  · obtain ⟨e', he', -, rfl⟩ := mem_proj.mp hv
    rw [(hcourse.1 e' he').1] at hset
    cases hset
  · -- without faults the write has succeeded
    have hexec := (hrun.sem_of_mem hmem).2
    refine absurd ?_ (hnone y.event (mem_proj.mpr ⟨y, hmem, rfl, rfl⟩) dn req.newPassword)
    obtain ⟨who, op, ans, ypre, ypost⟩ := y
    cases hop
    exact congrArg (Sigma.mk _) (congrArg Prod.fst hexec)
  · have hlogin := hin.own y hmem ctx req accounts hy hreq hlist
    rw [hsecond] at hlogin
    cases hlogin
  · obtain ⟨z, hz, hwho, rfl⟩ := mem_proj.mp hv
    exact ⟨z, hz, hwho, hstep⟩

/-- Only writes to the entry change its password. -/
theorem ldap_of_not_writesEntry (hrun : Run (faultless P) (start P reqs w) tr c)
    {e : Entry ι World Op Ans} (he : e ∈ tr) (hne : ¬WritesEntry dn e) :
    e.post.ldap dn = e.pre.ldap dn := by
  obtain ⟨-, hexec⟩ := hrun.sem_of_mem he
  obtain ⟨who, op, ans, pre, post⟩ := e
  obtain rfl : post = (exec P op pre).2 := congrArg Prod.snd hexec
  by_cases hpart : op.part = .ldap
  · cases op with
    | verifyUserBind dn' pw => rfl
    | ldapChangePassword dn' pw =>
      have hdn : dn ≠ dn' := fun h => hne ⟨pw, by rw [h]⟩
      exact Function.update_of_ne hdn _ _
    | _ => cases hpart
  · exact congrFun ((exec_frame P op pre).ldap hpart) dn

/-- Only writes of credentials change the credentials. -/
theorem users_of_not_writesCredential (hrun : Run (faultless P) (start P reqs w) tr c)
    {e : Entry ι World Op Ans} (he : e ∈ tr) (hne : ¬WritesCredential e) :
    e.post.users = e.pre.users := by
  obtain ⟨-, hexec⟩ := hrun.sem_of_mem he
  obtain ⟨who, op, ans, pre, post⟩ := e
  obtain rfl : post = (exec P op pre).2 := congrArg Prod.snd hexec
  by_cases hpart : op.part = .users
  · cases op with
    | getUserCredential owner => rfl
    | createUserCredential c => exact absurd rfl hne
    | updateUserCredential c => exact absurd rfl hne
    | _ => cases hpart
  · exact (exec_frame P op pre).users hpart

theorem ldap_written (hrun : Run (faultless P) (start P reqs w) tr c) {e : Entry ι World Op Ans}
    (he : e ∈ tr) {password : String} (hop : e.op = .ldapChangePassword dn password) :
    e.post.ldap dn = some password := by
  obtain ⟨-, hexec⟩ := hrun.sem_of_mem he
  obtain ⟨who, op, ans, pre, post⟩ := e
  cases hop
  obtain rfl : post = (exec P (.ldapChangePassword dn password) pre).2 := congrArg Prod.snd hexec
  simp [exec]

theorem users_written (hemail : email ≠ "") (hrun : Run (faultless P) (start P reqs w) tr c)
    {e : Entry ι World Op Ans} (he : e ∈ tr) (hi : Intact P email e.pre) {cred : UserCredential}
    (hop : e.op = .updateUserCredential cred) (hc : cred.userEmail = email) :
    ∃ c', e.post.users (P.ownerID email) = some c' ∧ c'.salt = cred.salt ∧
      c'.wrappedDEK = cred.wrappedDEK := by
  obtain ⟨-, hexec⟩ := hrun.sem_of_mem he
  obtain ⟨c₀, hrow⟩ := Option.ne_none_iff_exists'.mp hi.credential
  obtain ⟨who, op, ans, pre, post⟩ := e
  cases hop
  have hrow' : pre.users (P.ownerID cred.userEmail) = some c₀ := hc.symm ▸ hrow
  rw [exec_updateUserCredential (hc ▸ hemail) hrow'] at hexec
  refine ⟨{ c₀ with salt := cred.salt, wrappedDEK := cred.wrappedDEK }, ?_, rfl, rfl⟩
  rw [show post = _ from congrArg Prod.snd hexec, ← hc]
  exact users_withCredential _ _

/-- Where nobody writes the entry, nobody writes a credential, and all is as it was. -/
theorem synced_of_untouched (hreqs : OneOwner email dek reqs) (hemail : email ≠ "")
    (hdn : P.userDN email = .ok dn) (hw : Intact P email w)
    (hrun : Run (faultless P) (start P reqs w) tr c) (hnone : ∀ e ∈ tr, ¬WritesEntry dn e)
    (hsync : Synced P email dek dn w) : Synced P email dek dn c.state := by
  obtain ⟨password, c₀, hldap, hrow, hopen⟩ := hsync
  have hldap' : c.state.ldap dn = w.ldap dn := hrun.unchanged (f := fun w => w.ldap dn)
    fun e he => ldap_of_not_writesEntry hrun he (hnone e he)
  have husers : c.state.users = w.users := by
    refine hrun.unchanged (f := World.users) fun e he => ?_
    refine users_of_not_writesCredential hrun he fun hwr => ?_
    obtain ⟨pre, post, htr⟩ := List.append_of_mem he
    obtain ⟨⟨x, hx, -, hxw⟩, -⟩ := entry_of_credential hreqs hemail hdn hw hrun htr hwr
    exact hnone x (htr ▸ List.mem_append_left _ hx) hxw
  exact ⟨password, c₀, hldap'.trans hldap, husers ▸ hrow, hopen⟩

/-- After the last write of the entry its request still writes the credential. -/
theorem credential_after (hreqs : OneOwner email dek reqs) (hemail : email ≠ "")
    (hdn : P.userDN email = .ok dn) (hw : Intact P email w)
    (hrun : Run (faultless P) (start P reqs w) tr c) (hdone : ∀ i, ∃ resp, c.procs i = .ret resp)
    (hin : InOrder P email dek dn reqs tr) {a b : List (Entry ι World Op Ans)}
    {y : Entry ι World Op Ans} (htr : tr = a ++ y :: b) (hy : WritesEntry dn y) :
    ∃ z ∈ b, z.who = y.who ∧ WritesCredential z := by
  obtain ⟨z, hz, hwho, hzw⟩ := credential_of_entry hreqs hemail hw hrun hdone hin htr hy
  refine ⟨z, ?_, hwho, hzw⟩
  obtain ⟨hfirst, -⟩ := first_of_entry hreqs hemail hw hrun htr hy
  rw [htr] at hz
  rcases List.mem_append.mp hz with hz | hz
  · -- before `y` its request had not written the entry
    obtain ⟨a₁, a₂, rfl⟩ := List.append_of_mem hz
    have hcut : tr = a₁ ++ z :: (a₂ ++ y :: b) := by simp [htr]
    obtain ⟨⟨x, hx, hxwho, hxw⟩, -⟩ := entry_of_credential hreqs hemail hdn hw hrun hcut hzw
    exact absurd hxw (hfirst x (List.mem_append_left _ hx) (hxwho.trans hwho))
  · rcases List.mem_cons.mp hz with rfl | hz
    · obtain ⟨password, hop⟩ := hy
      rw [WritesCredential, hop] at hzw
      cases hzw
    · exact hz

/-- **The last writes are one request's**: the request that wrote the entry last is the one
that wrote the credential last, or it would have overtaken it. -/
theorem last_writes (hreqs : OneOwner email dek reqs) (hemail : email ≠ "")
    (hdn : P.userDN email = .ok dn) (hw : Intact P email w)
    (hrun : Run (faultless P) (start P reqs w) tr c) (hdone : ∀ i, ∃ resp, c.procs i = .ret resp)
    (hin : InOrder P email dek dn reqs tr) {a b : List (Entry ι World Op Ans)}
    {y : Entry ι World Op Ans} (htr : tr = a ++ y :: b) (hy : WritesEntry dn y)
    (hb : ∀ e ∈ b, ¬WritesEntry dn e) :
    ∃ b₁ z b₂, b = b₁ ++ z :: b₂ ∧ z.who = y.who ∧ WritesCredential z ∧
      ∀ e ∈ b₂, ¬WritesCredential e := by
  obtain ⟨zy, hzy, hzywho, hzyw⟩ := credential_after hreqs hemail hdn hw hrun hdone hin htr hy
  obtain ⟨b₁, z, b₂, rfl, hz, hb₂⟩ := exists_last (p := WritesCredential) ⟨zy, hzy, hzyw⟩
  refine ⟨b₁, z, b₂, rfl, ?_, hz, hb₂⟩
  by_contra hne
  have hcut : tr = (a ++ y :: b₁) ++ z :: b₂ := by simp [htr]
  obtain ⟨⟨x, hx, hxwho, hxw⟩, -⟩ := entry_of_credential hreqs hemail hdn hw hrun hcut hz
  have hxa : x ∈ a := by
    rcases List.mem_append.mp hx with hx | hx
    · exact hx
    · rcases List.mem_cons.mp hx with rfl | hx
      · exact absurd hxwho.symm hne
      · exact absurd hxw (hb x (List.mem_append_left _ hx))
  have hzyb : zy ∈ b₁ := by
    rcases List.mem_append.mp hzy with h | h
    · exact h
    · rcases List.mem_cons.mp h with rfl | h
      · exact absurd hzywho hne
      · exact absurd hzyw (hb₂ zy h)
  have hsub : [x, y, zy, z].Sublist tr := by
    rw [htr]
    refine (List.singleton_sublist.mpr hxa).append (List.Sublist.cons_cons y ?_)
    exact (List.singleton_sublist.mpr hzyb).append (List.Sublist.cons_cons z (List.nil_sublist _))
  exact hne (hxwho.symm.trans (hin.order x y zy z hsub hxw hy hzyw hz hxwho hzywho.symm))

/-- **Without overtaking the password is kept in step.** When all password changes of an owner's
sessions have finished, in whatever order their calls came, the password LDAP accepts unwraps
the data key, as it did at the start. -/
theorem password_synced (hreqs : OneOwner email dek reqs) (hemail : email ≠ "")
    (hdn : P.userDN email = .ok dn) (hids : ∀ r ∈ w.accounts.rows, r.id ≠ "")
    (hsync : Synced P email dek dn w) (hrun : Run (faultless P) (start P reqs w) tr c)
    (hdone : ∀ i, ∃ resp, c.procs i = .ret resp) (hin : InOrder P email dek dn reqs tr) :
    Synced P email dek dn c.state := by
  have hw : Intact P email w := by
    obtain ⟨-, c₀, -, hrow, -⟩ := hsync
    exact ⟨hids, by simp [hrow]⟩
  by_cases hwritten : ∃ y ∈ tr, WritesEntry dn y
  swap
  · exact synced_of_untouched hreqs hemail hdn hw hrun
      (fun e he hwr => hwritten ⟨e, he, hwr⟩) hsync
  obtain ⟨a, y, b, htr, hy, hb⟩ := exists_last hwritten
  obtain ⟨b₁, z, b₂, rfl, hsame, hz, hb₂⟩ :=
    last_writes hreqs hemail hdn hw hrun hdone hin htr hy hb
  have htr' : tr = (a ++ y :: b₁) ++ z :: b₂ := by simp [htr]
  have hymem : y ∈ tr := by simp [htr]
  have hzmem : z ∈ tr := by simp [htr']
  obtain ⟨-, ctx, req, hreq, hop⟩ := first_of_entry hreqs hemail hw hrun htr hy
  obtain ⟨-, ctx', req', cred, hreq', hzop, hcemail, hopen⟩ :=
    entry_of_credential hreqs hemail hdn hw hrun htr' hz
  rw [hsame, hreq] at hreq'
  cases hreq'
  -- the entry is as `y` left it, the credential as `z` left it
  have hldap : c.state.ldap dn = y.post.ldap dn := hrun.last (f := fun w => w.ldap dn) htr
    fun e he => ldap_of_not_writesEntry hrun (by rw [htr]; simp [he]) (hb e he)
  have husers : c.state.users = z.post.users := hrun.last (f := World.users) htr'
    fun e he => users_of_not_writesCredential hrun (by rw [htr']; simp [he]) (hb₂ e he)
  obtain ⟨c', hrow, hsalt, hbox⟩ := users_written hemail hrun hzmem
    ((run_onCourse hreqs hemail hw hrun).1 z hzmem).2 hzop hcemail
  refine ⟨req.newPassword, c', hldap.trans (ldap_written hrun hymem hop), husers ▸ hrow, ?_⟩
  rw [UserCredential.unwrap, hsalt, hbox]
  exact hopen

end Runs

/-! ## Two runs -/

/-- A scheduled run in which nothing fails is a run of `faultless`. -/
theorem run_faultless [DecidableEq ι] (P : Params) (order : List ι) (reqs : ι → Request)
    (w : World) :
    Run (faultless P) (start P reqs w) (runFaulty P (fun _ => false) order reqs w).1
      (runFaulty P (fun _ => false) order reqs w).2 := by
  have hexec : ∀ o s r s', execFaulty P (fun _ => false) o s = some (r, s') →
      faultless P o s r s' := by
    intro o s r s' h
    rw [execFaulty] at h
    split at h
    · rename_i hen
      exact ⟨hen, (Option.some.inj h).symm⟩
    · cases h
  exact Run.of_schedule hexec order Run.nil

/-- A change of the login identity's password in a session of `ann`. -/
def changeTo (old new : String) : ChangePasswordRequest where
  oldPassword := old
  newPassword := new
  confirmPassword := new

/-- One change, and a second one that starts from the first one's password. -/
def followUp (second : Bool) : Request :=
  .changePassword (some annsContext) (.ok
    (if second then changeTo "password-A" "password-B" else changeTo "old-password" "password-A"))

/-- One change after the other. -/
def inTurn : List (Entry Bool World Op Ans) × Conf Bool World Op Ans Resp :=
  runFaulty .sample (fun _ => false) (List.replicate 14 false ++ List.replicate 14 true) followUp
    annsWorld

theorem synced_annsWorld : Synced .sample "ann" 1 "uid=ann" annsWorld :=
  ⟨"old-password", ⟨"ann", 7, ⟨.master "old-password" 7, 0, 1⟩⟩, by decide,
    by decide, by decide⟩

/-- A list of accounts that a request of `followUp` has seen names the login identity. -/
def namesIdentity (e : Entry Bool World Op Ans) : Bool :=
  match e.event with
  | ⟨.listAccounts _ _, .ok accounts⟩ =>
    isLoginIdentity .sample "ann" ((changeTo "" "").target .sample "ann" accounts)
  | _ => true

theorem inOrder_inTurn : InOrder .sample "ann" 1 "uid=ann" followUp inTurn.1 := by
  constructor
  · intro y _ ctx req accounts _ hreq hlist
    have hall : ∀ e ∈ inTurn.1, namesIdentity e = true := by decide
    obtain ⟨e, he, -, hev⟩ := mem_proj.mp hlist
    have hnames := hall e he
    rw [namesIdentity, hev] at hnames
    have htarget : req.target .sample "ann" accounts =
        (changeTo "" "").target .sample "ann" accounts := by
      cases hwho : y.who with
      | false =>
        rw [hwho] at hreq
        cases hreq
        rfl
      | true =>
        rw [hwho] at hreq
        cases hreq
        rfl
    rw [htarget]
    exact hnames
  · intro x y z' z hsub _ _ _ _ hxz hyz
    have hpair : inTurn.1.Pairwise fun e e' => e.who = true → e'.who = true := by decide
    have h := hpair.sublist hsub
    simp only [List.pairwise_cons, List.mem_cons, forall_eq_or_imp] at h
    obtain ⟨⟨hxy, -⟩, -, ⟨hz'z, -⟩, -⟩ := h
    cases hx : x.who with
    | true => exact (hxy hx).symm
    | false =>
      cases hy : y.who with
      | false => rfl
      | true => rw [← hx, hxz, hz'z (hyz ▸ hy)]

theorem password_synced_inTurn : Synced .sample "ann" 1 "uid=ann" inTurn.2.state := by
  have hdone : ∀ i, (inTurn.2.procs i).isRet = true := by decide +kernel
  have hreqs : OneOwner "ann" 1 followUp := fun i => ⟨"s", _, rfl⟩
  exact password_synced hreqs (by decide) (by decide +kernel) (by decide +kernel)
    synced_annsWorld (run_faultless _ _ _ _) (fun i => Prog.isRet_iff.mp (hdone i)) inOrder_inTurn

/-- Two changes, both from the current password. -/
def crossing (second : Bool) : Request :=
  .changePassword (some annsContext)
    (.ok (changeTo "old-password" (if second then "password-B" else "password-A")))

/-- The first has written LDAP when the second runs to its end; then the first goes on. -/
def crossed : List (Entry Bool World Op Ans) × Conf Bool World Op Ans Resp :=
  runFaulty .sample (fun _ => false) ((List.replicate 9 [false, true]).flatten ++
    List.replicate 5 true ++ List.replicate 5 false) crossing annsWorld

/-- **Two crossing changes lock the owner out**: LDAP accepts the second one's password, and
the data key is wrapped under the first one's. -/
theorem password_lost :
    OneOwner "ann" 1 crossing ∧ Synced .sample "ann" 1 "uid=ann" annsWorld ∧
      Run (faultless .sample) (start .sample crossing annsWorld) crossed.1 crossed.2 ∧
      (∀ i, ∃ resp, crossed.2.procs i = .ret resp) ∧
      crossed.2.state.ldap "uid=ann" = some "password-B" ∧
      ¬Synced .sample "ann" 1 "uid=ann" crossed.2.state := by
  have hdone : ∀ i, (crossed.2.procs i).isRet = true := by decide +kernel
  have hldap : crossed.2.state.ldap "uid=ann" = some "password-B" := by decide +kernel
  refine ⟨fun i => ⟨"s", _, rfl⟩, synced_annsWorld, run_faultless _ _ _ _,
    fun i => Prog.isRet_iff.mp (hdone i), hldap, ?_⟩
  rintro ⟨password, c, hpw, hrow, hopen⟩
  rw [hldap] at hpw
  cases hpw
  have hnone : ∀ c ∈ crossed.2.state.users (Params.sample.ownerID "ann"),
      c.unwrap "password-B" = none := by decide +kernel
  rw [hnone c hrow] at hopen
  cases hopen

end E2Mail.Backend
