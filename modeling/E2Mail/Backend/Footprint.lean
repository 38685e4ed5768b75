import E2Mail.Backend.Accounts

/-!
# Footprints

Which part of the world a call belongs to, what a call leaves alone, and what a
call's answer says about the state it was made in. The helpers of the handlers
are summarised by the parts they use, so that a proof about a handler looks only
at the calls that matter to it.
-/

namespace E2Mail.Backend

open Lib

/-- The parts of the world. Creating a session and changing the account list of
one count as two, since only the login handlers do the first. -/
inductive Part where
  | clock | random | limiter | users | twoFA | passkeys | accounts | pending | ceremonies
  | sessions | sessionLists | ldap | services
  deriving DecidableEq

/-- The part a call belongs to. -/
def Op.part : Op → Part
  | tick _ => .clock
  | generateSalt | generateDEK | encrypt _ _ | wrapDEK _ _ => .random
  | blocked _ _ _ | recordFailure _ | resetFailures _ => .limiter
  | getUserCredential _ | createUserCredential _ | updateUserCredential _ => .users
  | getTwoFA _ | saveTwoFA _ | deleteTwoFA _ => .twoFA
  | countWebAuthn _ | listWebAuthn _ | createWebAuthn _ | updateWebAuthn _ _ _
  | deleteWebAuthn _ _ => .passkeys
  | listAccounts _ _ | getAccount _ _ _ | countAccounts _ | createAccount _ _ | updateAccount _ _
  | deleteAccount _ _ | clearDefaults _ | markDefault _ _ => .accounts
  | pendingCreate _ | pendingGet _ | pendingMarkFailed _ | pendingDelete _ => .pending
  | beginLogin _ _ | peekLoginPayload _ | finishLogin _ _ _ => .ceremonies
  | sessionCreate _ _ => .sessions
  | sessionAccounts _ | setSessionAccounts _ _ => .sessionLists
  | verifyUserBind _ _ | ldapChangePassword _ _ => .ldap
  | imapLogin _ | validateCode _ _ | userDN _ => .services

/-- Calls that only ask. -/
def Op.isRead : Op → Bool
  | imapLogin _ | getUserCredential _ | getTwoFA _ | countWebAuthn _ | listWebAuthn _
  | listAccounts _ _ | getAccount _ _ _ | countAccounts _ | peekLoginPayload _ | validateCode _ _
  | sessionAccounts _ | userDN _ | verifyUserBind _ _ => true
  | _ => false

/-! ## What a call leaves alone -/

/-- Nothing but the part `p` differs between two worlds. -/
structure Frame (p : Part) (w w' : World) : Prop where
  now : p ≠ .clock → w'.now = w.now
  users : p ≠ .users → w'.users = w.users
  twoFA : p ≠ .twoFA → w'.twoFA = w.twoFA
  passkeys : p ≠ .passkeys → w'.passkeys = w.passkeys
  accounts : p ≠ .accounts → w'.accounts = w.accounts
  mu : p ≠ .accounts → w'.mu = w.mu
  pending : p ≠ .pending → w'.pending = w.pending
  ceremonies : p ≠ .ceremonies → w'.ceremonies = w.ceremonies
  sessions : p ≠ .sessions ∧ p ≠ .sessionLists → w'.sessions = w.sessions
  ldap : p ≠ .ldap → w'.ldap = w.ldap

section Frame

variable {P : Params} {o : Op} {w w' : World} {r : Ans o}

theorem Frame.refl (p : Part) (w : World) : Frame p w w := by
  constructor <;> intros <;> rfl

theorem createUserCredential_frame (c : UserCredential) (w : World) :
    Frame .users w (w.createUserCredential P c).2 := by
  unfold World.createUserCredential
  split
  · exact Frame.refl _ w
  · split
    · exact Frame.refl _ w
    · constructor <;> intro h <;> first | exact absurd rfl h | rfl

theorem updateUserCredential_frame (c : UserCredential) (w : World) :
    Frame .users w (w.updateUserCredential P c).2 := by
  unfold World.updateUserCredential
  split
  · exact Frame.refl _ w
  · constructor <;> intro h <;> first | exact absurd rfl h | rfl

theorem saveTwoFA_frame (t : TwoFA) (w : World) : Frame .twoFA w (w.saveTwoFA P t).2 := by
  unfold World.saveTwoFA
  split
  · exact Frame.refl _ w
  · constructor <;> intro h <;> first | exact absurd rfl h | rfl

theorem deleteTwoFA_frame (owner : String) (w : World) : Frame .twoFA w (w.deleteTwoFA P owner) := by
  unfold World.deleteTwoFA
  constructor <;> intro h <;> first | exact absurd rfl h | rfl

theorem createWebAuthnCredential_frame (c : WebAuthnCredential) (w : World) :
    Frame .passkeys w (w.createWebAuthnCredential c).2 := by
  unfold World.createWebAuthnCredential
  split
  · exact Frame.refl _ w
  · split
    · exact Frame.refl _ w
    · constructor <;> intro h <;> first | exact absurd rfl h | rfl

theorem createAccount_frame (a : Account) (dek : Nat) (w : World) :
    Frame .accounts w (w.createAccount P a dek).2 := by
  unfold World.createAccount
  by_cases hid : a.id = ""
  · simp only [hid, if_true]
    split
    · constructor <;> intro h <;> rfl
    · split <;> (constructor <;> intro h <;> first | exact absurd rfl h | rfl)
  · simp only [hid, if_false]
    split
    · exact Frame.refl _ w
    · split <;> (constructor <;> intro h <;> first | exact absurd rfl h | rfl)

theorem updateAccount_frame (a : Account) (dek : Nat) (w : World) :
    Frame .accounts w (w.updateAccount P a dek).2 := by
  unfold World.updateAccount
  split
  · exact Frame.refl _ w
  · constructor <;> intro h <;> first | exact absurd rfl h | rfl

theorem pendingGet_frame (id : String) (w : World) : Frame .pending w (w.pendingGet id).2 := by
  unfold World.pendingGet
  split
  · exact Frame.refl _ w
  · split
    · constructor <;> intro h <;> first | exact absurd rfl h | rfl
    · exact Frame.refl _ w

theorem pendingMarkFailed_frame (id : String) (w : World) :
    Frame .pending w (w.pendingMarkFailed id) := by
  unfold World.pendingMarkFailed
  split
  · exact Frame.refl _ w
  · constructor <;> intro h <;> first | exact absurd rfl h | rfl

theorem beginLogin_frame (u : WebAuthnUser) (payload : String) (w : World) :
    Frame .ceremonies w (w.beginLogin P u payload).2 := by
  unfold World.beginLogin
  split <;> (constructor <;> intro h <;> first | exact absurd rfl h | rfl)

theorem finishLogin_frame (u : WebAuthnUser) (id assertion : String) (w : World) :
    Frame .ceremonies w (w.finishLogin P u id assertion).2 := by
  unfold World.finishLogin
  split
  · exact Frame.refl _ w
  · split
    · constructor <;> intro h <;> first | exact absurd rfl h | rfl
    · split <;> (constructor <;> intro h <;> first | exact absurd rfl h | rfl)

theorem sessionCreate_frame (s : Session) (dek : Nat) (w : World) :
    Frame .sessions w (w.sessionCreate P s dek).2 := by
  unfold World.sessionCreate
  by_cases hid : s.id = "" <;> simp only [hid, if_true, if_false] <;>
    (constructor <;> intro h <;> first | exact absurd rfl h | exact absurd rfl h.1 | rfl)

/-- A call that only asks changes nothing. -/
theorem exec_read (h : o.isRead = true) : (exec P o w).2 = w := by
  cases o <;> cases h <;> rfl

/-- A call changes nothing but its own part. -/
theorem exec_frame (P : Params) (o : Op) (w : World) : Frame o.part w (exec P o w).2 := by
  cases o with
  | createUserCredential c => exact createUserCredential_frame c w
  | updateUserCredential c => exact updateUserCredential_frame c w
  | saveTwoFA t => exact saveTwoFA_frame t w
  | createWebAuthn c => exact createWebAuthnCredential_frame c w
  | createAccount a dek => exact createAccount_frame a dek w
  | updateAccount a dek => exact updateAccount_frame a dek w
  | pendingGet id => exact pendingGet_frame id w
  | pendingMarkFailed id => exact pendingMarkFailed_frame id w
  | beginLogin u payload => exact beginLogin_frame u payload w
  | finishLogin u id assertion => exact finishLogin_frame u id assertion w
  | sessionCreate s dek => exact sessionCreate_frame s dek w
  | deleteTwoFA owner => exact deleteTwoFA_frame owner w
  | setSessionAccounts id accounts =>
    constructor <;> intro h <;> first | exact absurd rfl h | exact absurd rfl h.2 | rfl
  | _ => constructor <;> intro h <;> first | exact absurd rfl h | rfl

/-- What a call did: what `exec` says, or it failed. -/
theorem sem_cases (h : sem P o w r w') :
    (r = (exec P o w).1 ∧ w' = (exec P o w).2) ∨
      ∃ e, failWith e o = some r ∧ w' = afterFailure o w := by
  obtain ⟨-, h | h⟩ := h
  · exact .inl ⟨congrArg Prod.fst h, congrArg Prod.snd h⟩
  · exact .inr h

/-- Faults or not, a call changes nothing but its own part. -/
theorem sem_frame (h : sem P o w r w') : Frame o.part w w' := by
  rcases sem_cases h with ⟨-, rfl⟩ | ⟨e, -, rfl⟩
  · exact exec_frame P o w
  · cases o with
    | markDefault owner id => constructor <;> intro h <;> first | exact absurd rfl h | rfl
    | _ => exact Frame.refl _ w

theorem sem_read (h : sem P o w r w') (hr : o.isRead = true) : w' = w := by
  rcases sem_cases h with ⟨-, rfl⟩ | ⟨e, -, rfl⟩
  · exact exec_read hr
  · cases o with
    | markDefault owner id => cases hr
    | _ => rfl

end Frame

/-! ## What an answer says

A positive answer is never a fault, so it tells about the state it was given in. -/

section Answers

variable {P : Params} {w w' : World}

/-- An answer that no failure gives is the answer of `exec`. -/
theorem sem_answer {o : Op} {r : Ans o} (h : sem P o w r w') (hr : ∀ e, failWith e o ≠ some r) :
    r = (exec P o w).1 ∧ w' = (exec P o w).2 := by
  rcases sem_cases h with hx | ⟨e, he, -⟩
  · exact hx
  · exact absurd he (hr e)

theorem getTwoFA_answer {owner : String} {t : Option TwoFA}
    (h : sem P (.getTwoFA owner) w (.ok t) w') : t = w.getTwoFA P owner := by
  have hx := (sem_answer h fun _ => nofun).1
  exact Except.ok.inj hx

theorem countWebAuthn_answer {owner : String} {n : Nat}
    (h : sem P (.countWebAuthn owner) w (.ok n) w') : n = (w.passkeysOf P owner).length := by
  have hx := (sem_answer h fun _ => nofun).1
  exact Except.ok.inj hx

theorem listWebAuthn_answer {owner : String} {l : List WebAuthnCredential}
    (h : sem P (.listWebAuthn owner) w (.ok l) w') : l = w.passkeysOf P owner := by
  have hx := (sem_answer h fun _ => nofun).1
  exact Except.ok.inj hx

/-- `Get` answers a pending login that is stored and has not expired. -/
theorem pendingGet_answer {id : String} {pl : PendingLogin}
    (h : sem P (.pendingGet id) w (some pl) w') :
    w.pending id = some pl ∧ w.now ≤ pl.expiresAt := by
  have hx := (sem_answer h fun _ => nofun).1
  change some pl = (w.pendingGet id).1 at hx
  rw [World.pendingGet] at hx
  rcases hp : w.pending id with _ | pl'
  · simp [hp] at hx
  · simp only [hp] at hx
    split at hx
    · cases hx
    · rename_i hexp
      obtain rfl := Option.some.inj hx
      exact ⟨rfl, Nat.le_of_not_lt hexp⟩

theorem peekLoginPayload_answer {id payload : String}
    (h : sem P (.peekLoginPayload id) w (some payload) w') :
    ∃ c, w.ceremonies id = some c ∧ c.expired w.now = false ∧ c.payload = payload := by
  have hx := (sem_answer h fun _ => nofun).1
  change some payload = w.peekLoginPayload id at hx
  rw [World.peekLoginPayload] at hx
  rcases hc : w.ceremonies id with _ | c
  · simp [hc] at hx
  · simp only [hc] at hx
    split at hx
    · cases hx
    · rename_i hexp
      exact ⟨c, rfl, by simpa using hexp, (Option.some.inj hx).symm⟩

/-- `FinishLogin` succeeds on a live ceremony whose assertion the library verifies. -/
theorem finishLogin_answer {u : WebAuthnUser} {id assertion : String} {cred : Credential}
    (h : sem P (.finishLogin u id assertion) w (.ok cred) w') :
    ∃ c, w.ceremonies id = some c ∧ c.expired w.now = false ∧
      P.waFinishLogin u c.data assertion = some cred := by
  have hx := (sem_answer h fun _ => nofun).1
  change .ok cred = (w.finishLogin P u id assertion).1 at hx
  rw [World.finishLogin] at hx
  rcases hc : w.ceremonies id with _ | c
  · simp [hc] at hx
  · simp only [hc] at hx
    split at hx
    · cases hx
    · rename_i hexp
      rcases hf : P.waFinishLogin u c.data assertion with _ | cred'
      · simp [hf] at hx
      · simp only [hf] at hx
        exact ⟨c, rfl, by simpa using hexp, hf.trans (congrArg some (Except.ok.inj hx).symm)⟩

theorem validateCode_answer {secret code : String}
    (h : sem P (.validateCode secret code) w true w') :
    P.totpValidate w.now secret (trimSpace code) = true := by
  have hx := (sem_answer h fun _ => nofun).1
  exact (Bool.and_eq_true_iff.mp hx.symm).2

theorem sessionCreate_answer {s s' : Session} {dek : Nat}
    (h : sem P (.sessionCreate s dek) w (.ok s') w') : s'.email = s.email := by
  have hx := (sem_answer h fun _ => nofun).1
  rw [Except.ok.inj hx]
  rfl

/-- What a list operation in `Except` answers comes from the list. -/
theorem mem_of_mapM {α β : Type} {f : α → Res β} {l : List α} {l' : List β} (h : l.mapM f = .ok l')
    {b : β} (hb : b ∈ l') : ∃ a ∈ l, f a = .ok b := by
  induction l generalizing l' with
  | nil =>
    cases h
    cases hb
  | cons a l ih =>
    rw [List.mapM_cons] at h
    rcases ha : f a with e | b'
    · rw [ha] at h
      cases h
    · rcases hl : l.mapM f with e | l''
      · rw [ha, hl] at h
        cases h
      · rw [ha, hl] at h
        cases h
        rcases List.mem_cons.mp hb with rfl | hb
        · exact ⟨a, List.mem_cons_self, ha⟩
        · obtain ⟨a', ha', hf⟩ := ih hl hb
          exact ⟨a', List.mem_cons_of_mem _ ha', hf⟩

/-- A row that is scanned is the account's. -/
theorem scanAccount_eq_ok {owner : String} {dek : Nat} {r : AccountRow} {a : Account}
    (h : scanAccount owner dek r = .ok a) : a = { r.acc with userEmail := owner } := by
  rw [scanAccount] at h
  split at h
  · exact (Except.ok.inj h).symm
  · cases h

/-- The accounts `ListAccounts` answers are the owner's rows. -/
theorem row_of_listAccounts {owner : String} {dek : Nat} {accounts : List Account}
    (h : w.listAccounts P owner dek = .ok accounts) {a : Account} (ha : a ∈ accounts) :
    ∃ r ∈ w.accounts.rows, r.isOf P owner a.id = true ∧ a = { r.acc with userEmail := owner } := by
  obtain ⟨r, hr, hscan⟩ := mem_of_mapM h ha
  obtain ⟨hrow, howner⟩ := List.mem_filter.mp ((List.mem_insertionSort _).mp hr)
  obtain rfl := scanAccount_eq_ok hscan
  exact ⟨r, hrow, decide_eq_true ⟨of_decide_eq_true howner, rfl⟩, rfl⟩

/-- The account `GetAccount` answers is a row of the owner. -/
theorem row_of_getAccount {owner id : String} {dek : Nat} {a : Account}
    (h : w.getAccount P owner id dek = .ok (some a)) :
    ∃ r ∈ w.accounts.rows, r.isOf P owner a.id = true ∧ a = { r.acc with userEmail := owner } := by
  rw [World.getAccount] at h
  rcases hfind : (w.rowsOf (P.ownerID owner)).find? fun r => r.acc.id = id with _ | r
  · rw [hfind] at h
    cases h
  · rw [hfind] at h
    rcases hscan : scanAccount owner dek r with e | a'
    · simp only [hscan] at h
      cases h
    · simp only [hscan] at h
      cases h
      obtain ⟨hrow, howner⟩ := List.mem_filter.mp (List.mem_of_find?_eq_some hfind)
      obtain rfl := scanAccount_eq_ok hscan
      exact ⟨r, hrow, decide_eq_true ⟨of_decide_eq_true howner, rfl⟩, rfl⟩

/-- `ListAccounts` answers nothing only where there is nothing. -/
theorem rowsOf_of_listAccounts_nil {owner : String} {dek : Nat}
    (h : w.listAccounts P owner dek = .ok []) : w.rowsOf (P.ownerID owner) = [] := by
  rw [World.listAccounts] at h
  rcases hrows : (w.rowsOf (P.ownerID owner)).insertionSort fun a b => a.before b with _ | ⟨r, l⟩
  · have hlen := congrArg List.length hrows
    rw [List.length_insertionSort] at hlen
    exact List.length_eq_zero_iff.mp hlen
  · rw [hrows, List.mapM_cons] at h
    rcases hscan : scanAccount owner dek r with e | a
    · rw [hscan] at h
      cases h
    · rcases hl : l.mapM (scanAccount owner dek) with e | l'
      · rw [hscan, hl] at h
        cases h
      · rw [hscan, hl] at h
        cases h

end Answers

/-! ## What the fallible writers do -/

section Writers

variable {P : Params} {w : World}

theorem exec_updateAccount {a : Account} (dek : Nat) (h : a.id ≠ "") :
    exec P (.updateAccount a dek) w =
      (.ok { a with updatedAt := w.now }, (w.updateAccount P a dek).2) := by
  change w.updateAccount P a dek = _
  rw [World.updateAccount, if_neg h]

theorem exec_updateAccount_refused {a : Account} (dek : Nat) (h : a.id = "") :
    exec P (.updateAccount a dek) w = (.error { text := "account id is required" }, w) := by
  change w.updateAccount P a dek = _
  rw [World.updateAccount, if_pos h]

theorem rows_updateAccount {a : Account} (dek : Nat) (h : a.id ≠ "") :
    (w.updateAccount P a dek).2.accounts.rows = w.accounts.rows.map fun r =>
      if r.isOf P a.userEmail a.id then r.overwrite a dek w.now else r := by
  rw [World.updateAccount, if_neg h]
  rfl

/-- A credential that is written replaces its owner's row and no other. -/
def World.withCredential (P : Params) (c c' : UserCredential) (w : World) : World :=
  { w with users := Function.update w.users (P.ownerID c.userEmail) (some c') }

@[simp] theorem ldap_withCredential (c c' : UserCredential) :
    (w.withCredential P c c').ldap = w.ldap := by
  rw [World.withCredential]

@[simp] theorem accounts_withCredential (c c' : UserCredential) :
    (w.withCredential P c c').accounts = w.accounts := by
  rw [World.withCredential]

@[simp] theorem users_withCredential (c c' : UserCredential) :
    (w.withCredential P c c').users (P.ownerID c.userEmail) = some c' := by
  simp [World.withCredential]

theorem exec_createUserCredential {c : UserCredential} (hemail : c.userEmail ≠ "")
    (hrow : w.users (P.ownerID c.userEmail) = none) :
    exec P (.createUserCredential c) w = (.ok (), w.withCredential P c c) := by
  change w.createUserCredential P c = _
  rw [World.createUserCredential, if_neg hemail, hrow, Option.isSome_none, if_neg Bool.false_ne_true]
  rfl

theorem exec_createUserCredential_refused {c : UserCredential}
    (h : c.userEmail = "" ∨ w.users (P.ownerID c.userEmail) ≠ none) :
    ∃ e, exec P (.createUserCredential c) w = (.error e, w) := by
  by_cases hemail : c.userEmail = ""
  · exact ⟨_, if_pos hemail⟩
  · have hrow := Option.isSome_iff_ne_none.mpr (h.resolve_left hemail)
    exact ⟨_, (if_neg hemail).trans (if_pos hrow)⟩

theorem exec_updateUserCredential {c c₀ : UserCredential} (hemail : c.userEmail ≠ "")
    (hrow : w.users (P.ownerID c.userEmail) = some c₀) :
    exec P (.updateUserCredential c) w =
      (.ok (), w.withCredential P c { c₀ with salt := c.salt, wrappedDEK := c.wrappedDEK }) := by
  change w.updateUserCredential P c = _
  rw [World.updateUserCredential, if_neg hemail, hrow, Option.map_some]
  rfl

theorem exec_updateUserCredential_refused {c : UserCredential} (h : c.userEmail = "") :
    exec P (.updateUserCredential c) w = (.error userCredentialRequired, w) := by
  change w.updateUserCredential P c = _
  rw [World.updateUserCredential, if_pos h]

end Writers

/-! ## What the programs use -/

/-- Every call of the program belongs to one of the parts. -/
def Uses {α : Type} (ps : List Part) (p : Handler α) : Prop :=
  p.Only fun o => ps.contains o.part = true

section Uses

variable {α β : Type} {ps qs : List Part}

theorem Uses.mono {p : Handler α} (h : Uses ps p) (hs : ps ⊆ qs) : Uses qs p :=
  Prog.Only.mono h fun _ ho => List.contains_iff_mem.mpr (hs (List.contains_iff_mem.mp ho))

theorem Uses.pure (a : α) : Uses ps (pure a : Handler α) := trivial

theorem Uses.step {o : Op} {f : Ans o → Handler α} (ho : ps.contains o.part = true)
    (hf : ∀ r, Uses ps (f r)) : Uses ps (call o >>= f) := ⟨ho, hf⟩

theorem Uses.bind {p : Handler α} {f : α → Handler β} (hp : Uses qs p) (hs : qs ⊆ ps)
    (hf : ∀ a, Uses ps (f a)) : Uses ps (p >>= f) :=
  Prog.Only.bind (hp.mono hs) hf

theorem Uses.of_call {o : Op} (ho : ps.contains o.part = true) : Uses ps (call o) :=
  ⟨ho, fun _ => trivial⟩

theorem uses_anyBlocked (ipKey : String) (ipMax : Nat) (emailKey : Option String)
    (emailMax window : Nat) :
    Uses [.limiter] (anyBlocked ipKey ipMax emailKey emailMax window) := by
  refine Uses.step rfl fun r => ?_
  cases r with
  | true => exact Uses.pure _
  | false =>
    cases emailKey with
    | none => exact Uses.pure _
    | some key => exact Uses.of_call rfl

theorem uses_onBothKeys {f : String → Handler Unit} (hf : ∀ key, Uses [.limiter] (f key))
    (ipKey : String) (emailKey : Option String) : Uses [.limiter] (onBothKeys f ipKey emailKey) := by
  refine Uses.bind (hf ipKey) (List.Subset.refl _) fun _ => ?_
  cases emailKey with
  | none => exact Uses.pure _
  | some key => exact hf key

theorem uses_recordFailure (key : String) : Uses [.limiter] (recordFailure key) :=
  Uses.of_call rfl

theorem uses_resetFailures (key : String) : Uses [.limiter] (resetFailures key) :=
  Uses.of_call rfl

theorem uses_resolveCredential (ownerEmail masterPassword : String) :
    Uses [.users, .random] (resolveCredential ownerEmail masterPassword) := by
  refine Uses.step rfl fun r => ?_
  rcases r with e | _ | cred
  · exact Uses.pure _
  · refine Uses.step rfl fun r => ?_
    rcases r with e | salt
    · exact Uses.pure _
    refine Uses.step rfl fun r => ?_
    rcases r with e | dek
    · exact Uses.pure _
    refine Uses.step rfl fun r => ?_
    rcases r with e | wrappedDEK
    · exact Uses.pure _
    refine Uses.step rfl fun r => ?_
    rcases r with e | ⟨⟩ <;> exact Uses.pure _
  · dsimp only
    split <;> exact Uses.pure _

theorem uses_encryptAccountPasswords (P : Params) (acc : Account) (dek : Nat) :
    Uses [.random] (encryptAccountPasswords P acc dek) := by
  refine Uses.step rfl fun r => ?_
  rcases r with e | imapEnc
  · exact Uses.pure _
  refine Uses.step rfl fun r => ?_
  rcases r with e | smtpEnc <;> exact Uses.pure _

theorem uses_maybeMigrateTwoFA (P : Params) (ownerEmail : String) (dek : Nat) :
    Uses [.twoFA, .random] (maybeMigrateTwoFA P ownerEmail dek) := by
  refine Uses.step rfl fun r => ?_
  rcases r with e | _ | t
  · exact Uses.pure _
  · exact Uses.pure _
  · dsimp only
    split
    · exact Uses.pure _
    · generalize looksLikeSecret P (P.text t.secret) = plain
      cases plain with
      | false => exact Uses.pure _
      | true =>
        refine Uses.step rfl fun r => ?_
        rcases r with e | enc
        · exact Uses.pure _
        · exact Uses.step rfl fun _ => Uses.pure _

theorem uses_ensureFirstAccount (P : Params) (ownerEmail : String) (pl : PendingLogin) (dek : Nat) :
    Uses [.accounts, .random] (ensureFirstAccount P ownerEmail pl dek) := by
  refine Uses.step rfl fun r => ?_
  rcases r with e | accounts
  · exact Uses.pure _
  · dsimp only
    split
    · exact Uses.pure _
    · refine Uses.bind (uses_encryptAccountPasswords P _ dek) (by decide) fun r => ?_
      rcases r with e | acc
      · exact Uses.pure _
      refine Uses.step rfl fun r => ?_
      rcases r with e | acc <;> exact Uses.pure _

theorem uses_loadWebAuthnUser (P : Params) (email : String) :
    Uses [.passkeys] (loadWebAuthnUser P email) := by
  refine Uses.step rfl fun r => ?_
  rcases r with e | stored <;> exact Uses.pure _

theorem uses_totpSecret (P : Params) (ownerEmail : String) (pl : PendingLogin) (t : TwoFA) :
    Uses [.users, .random] (totpSecret P ownerEmail pl t) := by
  refine Uses.bind (uses_resolveCredential ownerEmail pl.password) (by decide) fun r => ?_
  rcases r with e | ⟨cred, dek⟩
  · exact Uses.pure _
  · dsimp only
    split <;> exact Uses.pure _

theorem uses_refreshSessionAccounts (ctx : AuthContext) :
    Uses [.accounts, .sessionLists] (refreshSessionAccounts ctx) := by
  refine Uses.step rfl fun r => ?_
  rcases r with e | accounts
  · exact Uses.pure _
  · exact Uses.of_call rfl

theorem uses_reencryptPasswords (ctx : AuthContext) (password : String) (acc : Account) :
    Uses [.random] (reencryptPasswords ctx password acc) := by
  unfold reencryptPasswords
  split
  · exact Uses.pure _
  · refine Uses.step rfl fun r => ?_
    rcases r with e | imapEnc
    · exact Uses.pure _
    refine Uses.step rfl fun r => ?_
    rcases r with e | smtpEnc <;> exact Uses.pure _

/-! ### The account handlers -/

theorem uses_createAccount (ctx? : Option AuthContext) (body : Except BodyErr AccountRequest) :
    Uses [.random, .accounts, .sessionLists] (createAccount ctx? body) := by
  rcases ctx? with _ | ctx
  · exact Uses.pure _
  rcases body with e | req
  · exact Uses.pure _
  simp only [createAccount]
  split
  · exact Uses.pure _
  · refine Uses.step rfl fun r => ?_
    rcases r with e | imapEnc
    · exact Uses.pure _
    refine Uses.step rfl fun r => ?_
    rcases r with e | smtpEnc
    · exact Uses.pure _
    refine Uses.step rfl fun r => ?_
    rcases r with e | count
    · exact Uses.pure _
    refine Uses.step rfl fun r => ?_
    rcases r with e | acc
    · exact Uses.pure _
    exact Uses.bind (uses_refreshSessionAccounts ctx) (by decide) fun _ => Uses.pure _

theorem uses_updateAccount (ctx? : Option AuthContext) (id : String)
    (body : Except BodyErr AccountRequest) :
    Uses [.accounts, .random, .sessionLists] (updateAccount ctx? id body) := by
  rcases ctx? with _ | ctx
  · exact Uses.pure _
  refine Uses.step rfl fun r => ?_
  rcases r with e | _ | existing
  · exact Uses.pure _
  · exact Uses.pure _
  rcases body with e | req
  · exact Uses.pure _
  refine Uses.bind (uses_reencryptPasswords ctx _ _) (by decide) fun r => ?_
  rcases r with e | acc
  · exact Uses.pure _
  refine Uses.step rfl fun r => ?_
  rcases r with e | _
  · exact Uses.pure _
  exact Uses.bind (uses_refreshSessionAccounts ctx) (by decide) fun _ => Uses.pure _

theorem uses_deleteAccount (ctx? : Option AuthContext) (id : String) :
    Uses [.sessionLists, .accounts] (deleteAccount ctx? id) := by
  rcases ctx? with _ | ctx
  · exact Uses.pure _
  refine Uses.step rfl fun accounts => ?_
  split
  · exact Uses.pure _
  · refine Uses.step rfl fun r => ?_
    rcases r with e | _
    · exact Uses.pure _
    exact Uses.bind (uses_refreshSessionAccounts ctx) (by decide) fun _ => Uses.pure _

theorem uses_storageSetDefaultAccount (ownerEmail id : String) :
    Uses [.accounts] (storageSetDefaultAccount ownerEmail id) := by
  refine Uses.step rfl fun r => ?_
  rcases r with e | _
  · exact Uses.pure _
  refine Uses.step rfl fun r => ?_
  rcases r with e | _ | _ <;> exact Uses.pure _

theorem uses_setDefaultAccount (ctx? : Option AuthContext) (id : String) :
    Uses [.accounts, .sessionLists] (setDefaultAccount ctx? id) := by
  rcases ctx? with _ | ctx
  · exact Uses.pure _
  refine Uses.bind (uses_storageSetDefaultAccount ctx.email id) (by decide) fun r => ?_
  rcases r with e | _
  · exact Uses.pure _
  exact Uses.bind (uses_refreshSessionAccounts ctx) (by decide) fun _ => Uses.pure _

/-! ### The password change -/

theorem uses_finishChange (ctx : AuthContext) (limiterKey : String) (accounts : List Account) :
    Uses [.sessionLists, .limiter] (finishChange ctx limiterKey accounts) :=
  Uses.step rfl fun _ => Uses.step rfl fun _ => Uses.pure _

theorem uses_rollbackLDAP (userDN oldPassword : String) :
    Uses [.ldap] (rollbackLDAP userDN oldPassword) :=
  Uses.step rfl fun _ => Uses.pure _

theorem uses_syncAccount (ctx : AuthContext) (userDN oldPassword : String) (acc : Option Account)
    (imap smtp : Box String) :
    Uses [.accounts, .ldap] (syncAccount ctx userDN oldPassword acc imap smtp) := by
  rcases acc with _ | orig
  · exact Uses.pure _
  refine Uses.step rfl fun r => ?_
  rcases r with e | saved
  · exact Uses.bind (uses_rollbackLDAP userDN oldPassword) (by decide) fun _ => Uses.pure _
  · exact Uses.pure _

theorem uses_syncCredential (ctx : AuthContext) (userDN oldPassword : String)
    (orig : Option Account) (newSalt : Nat) (newWrappedDEK : Box Nat) :
    Uses [.users, .accounts, .ldap]
      (syncCredential ctx userDN oldPassword orig newSalt newWrappedDEK) := by
  refine Uses.step rfl fun r => ?_
  have hwrite : ∀ exists? c, Uses [.users] (writeCredential exists? c) := by
    intro exists? c
    unfold writeCredential
    split <;> exact Uses.of_call rfl
  have haccount : Uses [.accounts] (restoreAccount ctx orig) := by
    rcases orig with _ | orig
    · exact Uses.pure _
    · exact Uses.step rfl fun _ => Uses.pure _
  have hcredential : ∀ oldCred, Uses [.users] (restoreCredential oldCred) := by
    rintro (_ | oldCred)
    · exact Uses.pure _
    · exact Uses.step rfl fun _ => Uses.pure _
  refine Uses.bind (hwrite _ _) (by decide) fun r' => ?_
  rcases r' with e | _
  · refine Uses.bind haccount (by decide) fun _ => ?_
    refine Uses.bind (hcredential _) (by decide) fun _ => ?_
    exact Uses.bind (uses_rollbackLDAP userDN oldPassword) (by decide) fun _ => Uses.pure _
  · exact Uses.pure _

theorem uses_rewrapDEK (ctx : AuthContext) (newPassword : String) (loginIdentity : Bool) :
    Uses [.random] (rewrapDEK ctx newPassword loginIdentity) := by
  cases loginIdentity with
  | false => exact Uses.pure _
  | true =>
    refine Uses.step rfl fun r => ?_
    rcases r with e | newSalt
    · exact Uses.pure _
    refine Uses.step rfl fun r => ?_
    rcases r with e | newWrappedDEK <;> exact Uses.pure _

theorem uses_applyChange (ctx : AuthContext) (req : ChangePasswordRequest)
    (accounts : List Account) (acc : Option Account) (limiterKey userDN : String)
    (rewrapped : Option (Nat × Box Nat)) (imap smtp : Box String) :
    Uses [.ldap, .accounts, .users, .sessionLists, .limiter]
      (applyChange ctx req accounts acc limiterKey userDN rewrapped imap smtp) := by
  refine Uses.step rfl fun r => ?_
  rcases r with e | _
  · dsimp only
    split <;> exact Uses.pure _
  refine Uses.bind (uses_syncAccount ctx userDN req.oldPassword acc imap smtp) (by decide)
    fun r => ?_
  rcases r with _ | saved
  · exact Uses.pure _
  rcases rewrapped with _ | ⟨newSalt, newWrappedDEK⟩
  · exact (uses_finishChange ctx limiterKey _).mono (by decide)
  refine Uses.bind (uses_syncCredential ctx userDN req.oldPassword acc newSalt newWrappedDEK)
    (by decide) fun r => ?_
  cases r with
  | false => exact Uses.pure _
  | true => exact (uses_finishChange ctx limiterKey _).mono (by decide)

theorem uses_verifyAndApply (P : Params) (ctx : AuthContext) (req : ChangePasswordRequest)
    (accounts : List Account) (acc : Option Account) (limiterKey userDN : String) :
    Uses [.ldap, .limiter, .random, .accounts, .users, .sessionLists]
      (verifyAndApply P ctx req accounts acc limiterKey userDN) := by
  refine Uses.step rfl fun r => ?_
  rcases r with e | _
  · dsimp only
    split
    · exact Uses.step rfl fun _ => Uses.pure _
    · exact Uses.pure _
  refine Uses.bind (uses_rewrapDEK ctx req.newPassword _) (by decide) fun r => ?_
  rcases r with e | rewrapped
  · exact Uses.pure _
  refine Uses.step rfl fun r => ?_
  rcases r with e | imapEnc
  · exact Uses.pure _
  refine Uses.step rfl fun r => ?_
  rcases r with e | smtpEnc
  · exact Uses.pure _
  exact (uses_applyChange ctx req accounts acc limiterKey userDN rewrapped imapEnc smtpEnc).mono
    (by decide)

theorem uses_changePassword (P : Params) (ctx? : Option AuthContext)
    (body : Except BodyErr ChangePasswordRequest) :
    Uses [.accounts, .limiter, .services, .ldap, .random, .users, .sessionLists]
      (changePassword P ctx? body) := by
  rcases ctx? with _ | ctx
  · exact Uses.pure _
  unfold changePassword
  dsimp only
  split
  · exact Uses.pure _
  rcases body with e | req
  · exact Uses.pure _
  dsimp only
  split
  · exact Uses.pure _
  refine Uses.step rfl fun r => ?_
  rcases r with e | accounts
  · exact Uses.pure _
  dsimp only
  split
  · exact Uses.pure _
  refine Uses.step rfl fun r => ?_
  cases r with
  | true => exact Uses.pure _
  | false =>
    refine Uses.step rfl fun r => ?_
    rcases r with e | userDN
    · exact Uses.pure _
    exact (uses_verifyAndApply P ctx req accounts _ _ userDN).mono (by decide)

end Uses

end E2Mail.Backend
