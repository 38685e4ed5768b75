import E2Mail.Backend.EditPaths

/-!
# The fields of an account row

What one call does to one column of one row, and what a request learns when it
reads the row.

* `World.field` — a column of the row, and `effect`: what a call does to it;
* `field_step` — one call changes a field as `effect` says;
* `field_of_read` — a request reads the fields as they are stored.
-/

namespace E2Mail.Backend

open Lib

/-! ## Fields -/

/-- What a column of `accounts` holds. -/
inductive FieldValue where
  | text (s : String)
  | number (n : Int)
  | flag (b : Bool)
  | secret (s : Secret)
  deriving DecidableEq

/-- The columns that `UpdateAccount` writes, but for the time of the update. -/
inductive AccountField where
  | label | email | imapHost | imapPort | imapUseTLS | imapAllowInsecureTLS
  | smtpHost | smtpPort | smtpUseTLS | smtpAllowInsecureTLS
  | sieveHost | sievePort | sieveUseTLS | sieveAllowInsecureTLS
  | username | encIMAPPassword | encSMTPPassword | isDefault | sortOrder
  deriving DecidableEq

/-- The value of a field. -/
def AccountField.get (a : Account) : AccountField → FieldValue
  | label => .text a.label
  | email => .text a.email
  | imapHost => .text a.imapHost
  | imapPort => .number a.imapPort
  | imapUseTLS => .flag a.imapUseTLS
  | imapAllowInsecureTLS => .flag a.imapAllowInsecureTLS
  | smtpHost => .text a.smtpHost
  | smtpPort => .number a.smtpPort
  | smtpUseTLS => .flag a.smtpUseTLS
  | smtpAllowInsecureTLS => .flag a.smtpAllowInsecureTLS
  | sieveHost => .text a.sieveHost
  | sievePort => .number a.sievePort
  | sieveUseTLS => .flag a.sieveUseTLS
  | sieveAllowInsecureTLS => .flag a.sieveAllowInsecureTLS
  | username => .text a.username
  | encIMAPPassword => .secret a.encIMAPPassword
  | encSMTPPassword => .secret a.encSMTPPassword
  | isDefault => .flag a.isDefault
  | sortOrder => .number a.sortOrder

/-- The row of an owner column's account. -/
def World.accountRow (key id : String) (w : World) : Option AccountRow :=
  w.accounts.rows.find? fun r => r.ownerID = key ∧ r.id = id

/-- A field of the row. -/
def World.field (key id : String) (f : AccountField) (w : World) : Option FieldValue :=
  (w.accountRow key id).map fun r => f.get r.acc

/-- The call has written the row. -/
def onRow (P : Params) (key id : String) (v : Event Op Ans) : Bool :=
  match v with
  | ⟨.updateAccount acc _, .ok _⟩ => P.ownerID acc.userEmail = key ∧ acc.id = id
  | ⟨.clearDefaults owner, .ok _⟩ => P.ownerID owner = key
  | ⟨.markDefault owner _, _⟩ => P.ownerID owner = key
  | _ => false

/-- What a call does to a field of the row. -/
def effect (P : Params) (key id : String) (v : Event Op Ans) (f : AccountField)
    (old : FieldValue) : FieldValue :=
  match v with
  | ⟨.updateAccount acc _, .ok _⟩ =>
    if P.ownerID acc.userEmail = key ∧ acc.id = id then f.get acc else old
  | ⟨.clearDefaults owner, .ok _⟩ =>
    if P.ownerID owner = key ∧ f = .isDefault then .flag false else old
  | ⟨.markDefault owner target, .ok _⟩ =>
    if P.ownerID owner = key ∧ target = id ∧ f = .isDefault then .flag true else old
  | _ => old

section Fields

variable {P : Params} {key id : String} {f : AccountField} {w w' : World}

theorem effect_of_not_onRow {v : Event Op Ans} (hv : onRow P key id v = false) (old : FieldValue) :
    effect P key id v f old = old := by
  obtain ⟨o, r⟩ := v
  cases o with
  | updateAccount acc dek =>
    cases r with
    | error e => rfl
    | ok saved =>
      simp only [onRow, decide_eq_false_iff_not] at hv
      simp only [effect, if_neg hv]
  | clearDefaults owner =>
    cases r with
    | error e => rfl
    | ok _ =>
      simp only [onRow, decide_eq_false_iff_not] at hv
      simp only [effect, hv, false_and, if_false]
  | markDefault owner target =>
    cases r with
    | error e => rfl
    | ok _ =>
      simp only [onRow, decide_eq_false_iff_not] at hv
      simp only [effect, hv, false_and, if_false]
  | _ => rfl

/-- The calls that write the row. -/
theorem onRow_cases {v : Event Op Ans} (hv : onRow P key id v = true) :
    (∃ acc dek saved, v = ⟨.updateAccount acc dek, .ok saved⟩ ∧ P.ownerID acc.userEmail = key ∧
      acc.id = id) ∨
    (∃ owner, v = ⟨.clearDefaults owner, .ok ()⟩ ∧ P.ownerID owner = key) ∨
    ∃ owner target r, v = ⟨.markDefault owner target, r⟩ ∧ P.ownerID owner = key := by
  obtain ⟨o, r⟩ := v
  cases o with
  | updateAccount acc dek =>
    rcases r with err | saved
    · cases hv
    · simp only [onRow, decide_eq_true_eq] at hv
      exact .inl ⟨acc, dek, saved, rfl, hv⟩
  | clearDefaults owner =>
    rcases r with err | ⟨⟩
    · cases hv
    · simp only [onRow, decide_eq_true_eq] at hv
      exact .inr (.inl ⟨owner, rfl, hv⟩)
  | markDefault owner target =>
    simp only [onRow, decide_eq_true_eq] at hv
    exact .inr (.inr ⟨owner, target, r, rfl, hv⟩)
  | _ => cases hv

theorem wrote_of_onRow {v : Event Op Ans} (hv : onRow P key id v = true) : wrote v = true := by
  obtain ⟨acc, dek, saved, rfl, -⟩ | ⟨owner, rfl, -⟩ | ⟨owner, target, r, rfl, -⟩ := onRow_cases hv
  all_goals rfl

theorem accountRow_eq_some {r : AccountRow} :
    w.accountRow key id = some r ↔ r ∈ w.accounts.rows ∧ r.ownerID = key ∧ r.id = id := by
  constructor
  · intro h
    exact ⟨List.mem_of_find?_eq_some h, of_decide_eq_true
      (List.find?_some (p := fun r : AccountRow => decide (r.ownerID = key ∧ r.id = id)) h)⟩
  · rintro ⟨hr, hkey, hid⟩
    cases hfind : w.accountRow key id with
    | none =>
      have hno := List.find?_eq_none.mp hfind r hr
      exact absurd (decide_eq_true ⟨hkey, hid⟩) hno
    | some s =>
      have hs := List.mem_of_find?_eq_some hfind
      have hsid : s.ownerID = key ∧ s.id = id := of_decide_eq_true
        (List.find?_some (p := fun r : AccountRow => decide (r.ownerID = key ∧ r.id = id)) hfind)
      rw [Table.eq_of_key hs hr (hsid.2.trans hid.symm)]

/-- Rows that are changed where they stand. -/
theorem field_of_map {g : AccountRow → AccountRow}
    (hrows : w'.accounts.rows = w.accounts.rows.map g)
    (hg : ∀ r, (g r).ownerID = r.ownerID ∧ (g r).id = r.id) {e : FieldValue → FieldValue}
    (he : ∀ r, r.ownerID = key → r.id = id → f.get (g r).acc = e (f.get r.acc)) :
    w'.field key id f = (w.field key id f).map e := by
  have hrow : w'.accountRow key id = (w.accountRow key id).map g := by
    rw [World.accountRow, hrows, List.find?_map, World.accountRow]
    congr 2
    funext r
    rw [Function.comp_apply, (hg r).1, (hg r).2]
  rw [World.field, World.field, hrow, Option.map_map, Option.map_map]
  cases hr : w.accountRow key id with
  | none => rfl
  | some r =>
    obtain ⟨-, hkey, hid⟩ := accountRow_eq_some.mp hr
    exact congrArg some (he r hkey hid)

theorem field_of_accounts (h : w'.accounts = w.accounts) :
    w'.field key id f = w.field key id f := by
  rw [World.field, World.accountRow, h]
  rfl

@[simp] theorem get_overwrite (a : Account) (dek now : Nat) (r : AccountRow) :
    f.get (r.overwrite a dek now).acc = f.get a := by
  cases f <;> rfl

theorem get_clearDefault (r : AccountRow) :
    f.get r.clearDefault.acc = if f = .isDefault then .flag false else f.get r.acc := by
  cases f <;> rfl

theorem get_setDefault (now : Nat) (r : AccountRow) :
    f.get (r.setDefault now).acc = if f = .isDefault then .flag true else f.get r.acc := by
  cases f <;> rfl

end Fields

/-! ## Steps -/

section Steps

variable {ι : Type} {P : Params} {key id : String} {f : AccountField} {e : Entry ι World Op Ans}

/-- An update that does not answer an error writes the rows of its account. -/
theorem rows_of_update (hsem : sem P e.op e.pre e.ans e.post) {acc saved : Account} {dek : Nat}
    (he : e.event = ⟨.updateAccount acc dek, .ok saved⟩) :
    e.post.accounts.rows = e.pre.accounts.rows.map fun r =>
      if r.isOf P acc.userEmail acc.id then r.overwrite acc dek e.pre.now else r := by
  obtain ⟨who, op, ans, pre, post⟩ := e
  cases he
  obtain ⟨hans, hpost⟩ := sem_answer hsem fun _ => nofun
  have hid : acc.id ≠ "" := by
    intro hid
    rw [exec_updateAccount_refused dek hid] at hans
    cases hans
  rw [hpost, exec_updateAccount dek hid]
  exact rows_updateAccount dek hid

/-- An update that answers an error writes nothing. -/
theorem accounts_of_update_failed (hsem : sem P e.op e.pre e.ans e.post) {acc : Account} {dek : Nat}
    {err : Err} (he : e.event = ⟨.updateAccount acc dek, .error err⟩) :
    e.post.accounts = e.pre.accounts := by
  obtain ⟨who, op, ans, pre, post⟩ := e
  cases he
  rcases sem_cases hsem with ⟨hans, hpost⟩ | ⟨_, -, hpost⟩
  · by_cases hid : acc.id = ""
    · rw [hpost, exec_updateAccount_refused dek hid]
    · rw [exec_updateAccount dek hid] at hans
      cases hans
  · rw [hpost]
    rfl

theorem post_of_mark (hsem : sem P e.op e.pre e.ans e.post) {owner target : String} {b : Bool}
    (he : e.event = ⟨.markDefault owner target, .ok b⟩) :
    e.post = (e.pre.markDefault P owner target).2 := by
  obtain ⟨who, op, ans, pre, post⟩ := e
  cases he
  exact (sem_answer hsem fun _ => nofun).2

theorem accounts_of_mark_failed (hsem : sem P e.op e.pre e.ans e.post) {owner target : String}
    {err : Err} (he : e.event = ⟨.markDefault owner target, .error err⟩) :
    e.post.accounts = e.pre.accounts := by
  obtain ⟨who, op, ans, pre, post⟩ := e
  cases he
  rcases sem_cases hsem with ⟨hans, -⟩ | ⟨_, -, hpost⟩
  · cases hans
  · rw [hpost]
    rfl

/-- **One call** changes a field of the row as `effect` says. -/
theorem field_step (hsem : sem P e.op e.pre e.ans e.post)
    (hins : ∀ acc dek, e.op ≠ .createAccount acc dek)
    (hdel : ∀ owner target, e.op ≠ .deleteAccount owner target) :
    e.post.field key id f = (e.pre.field key id f).map (effect P key id e.event f) := by
  have hsame (haccounts : e.post.accounts = e.pre.accounts)
      (heffect : ∀ old, effect P key id e.event f old = old) :
      e.post.field key id f = (e.pre.field key id f).map (effect P key id e.event f) := by
    rw [field_of_accounts haccounts]
    cases e.pre.field key id f with
    | none => rfl
    | some old => exact congrArg some (heffect old).symm
  rcases hev : e.event with ⟨o, r⟩
  have hop : e.op = o := congrArg Sigma.fst hev
  rw [hev] at hsame
  cases o with
  | updateAccount acc dek =>
    rcases r with err | saved
    · exact hsame (accounts_of_update_failed hsem hev) fun _ => rfl
    · refine field_of_map (rows_of_update hsem hev) (fun r => ?_) fun r hkey hid => ?_
      · split <;> exact ⟨rfl, rfl⟩
      · simp only [effect, isOf_eq_true, hkey, hid, eq_comm (a := key), eq_comm (a := id)]
        split
        · exact get_overwrite ..
        · rfl
  | clearDefaults owner =>
    rcases clearDefaults_cases hsem hop with ⟨hok, hpost⟩ | ⟨hno, hpost⟩
    · rw [hev] at hok
      cases hok
      rw [hpost]
      refine field_of_map (rows_clearDefaults owner) (fun r => ?_) fun r hkey hid => ?_
      · split <;> exact ⟨rfl, rfl⟩
      · simp only [effect, AccountRow.ownedBy, decide_eq_true_eq, hkey, eq_comm (a := key)]
        by_cases howner : P.ownerID owner = key
        · simp only [howner, if_true, true_and, get_clearDefault]
        · simp only [howner, if_false, false_and]
    · refine hsame (by rw [hpost]) fun _ => ?_
      rcases r with err | _
      · rfl
      · exact absurd hev (hno owner)
  | markDefault owner target =>
    rcases r with err | b
    · exact hsame (accounts_of_mark_failed hsem hev) fun _ => rfl
    · rw [post_of_mark hsem hev]
      refine field_of_map (rows_markDefault owner target) (fun r => ?_) fun r hkey hid => ?_
      · split <;> exact ⟨rfl, rfl⟩
      · simp only [effect, isOf_eq_true, hkey, hid, eq_comm (a := key), eq_comm (a := id)]
        by_cases howner : P.ownerID owner = key ∧ target = id
        · simp only [howner, and_self, true_and, if_true, get_setDefault]
        · simp only [howner, if_false, ← and_assoc, false_and]
  | createAccount acc dek => exact absurd hop (hins acc dek)
  | deleteAccount owner target => exact absurd hop (hdel owner target)
  | _ => exact hsame (accounts_of_not_writes hsem (by rw [hop]; rfl)).1 fun _ => rfl

/-- A request reads the fields of the row as they are stored. -/
theorem field_of_read (hsem : sem P e.op e.pre e.ans e.post) {b : Account}
    (hread : ReadAccount b e.event) (hkey : P.ownerID b.userEmail = key) (hid : b.id = id) :
    e.pre.field key id f = some (f.get b) ∧ e.post.field key id f = some (f.get b) := by
  obtain ⟨who, op, ans, pre, post⟩ := e
  have hrow (owner : String) (h : ∃ r ∈ pre.accounts.rows, r.isOf P owner b.id = true ∧
      b = { r.acc with userEmail := owner }) : pre.field key id f = some (f.get b) := by
    obtain ⟨r, hr, hof, hb⟩ := h
    obtain ⟨howner, hrid⟩ := isOf_eq_true.mp hof
    have hb' : P.ownerID owner = key := by
      rw [← hkey, hb]
    rw [World.field, accountRow_eq_some.mpr ⟨hr, howner.trans hb', hrid.trans hid⟩, hb]
    cases f <;> rfl
  rcases hread with ⟨owner, dek, accounts, hev, hmem⟩ | ⟨owner, target, dek, hev⟩
  · cases hev
    obtain ⟨hans, hpost⟩ := sem_answer hsem fun _ => nofun
    have hpre := hrow owner (row_of_listAccounts (Eq.symm hans) hmem)
    exact ⟨hpre, by rw [hpost]; exact hpre⟩
  · cases hev
    obtain ⟨hans, hpost⟩ := sem_answer hsem fun _ => nofun
    have hpre := hrow owner (row_of_getAccount (Eq.symm hans))
    exact ⟨hpre, by rw [hpost]; exact hpre⟩

end Steps

end E2Mail.Backend
