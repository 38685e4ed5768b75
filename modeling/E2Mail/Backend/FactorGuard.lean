import E2Mail.Backend.BackupCode
import E2Mail.Backend.TwoFactor

/-!
# Who may replace the second factor

`TwoFADisable` and `TwoFARegenerateBackupCodes` ask for a code of the stored
secret, and `TwoFASetup` refuses an owner who has one. `TwoFAEnable` looks at
nothing: it validates the code against the secret it was sent, and overwrites.

* `Guarded` — a stored second factor is replaced or removed only by a request
  that carried a code valid for it.
* `EnabledOnce` — `TwoFAEnable` does not write over another secret, and a row
  that was checked is still there when it is written.
* `guarded_of_enabledOnce` — then every run is guarded.
-/

namespace E2Mail.Backend

open Lib

variable {ι : Type} [DecidableEq ι]

/-! ## The property -/

/-- The session of a two-factor request. -/
def FactorRequest.session : FactorRequest → Option FactorContext
  | setup _ ctx _ _ | enable ctx _ _ | disable ctx _ | regenerate ctx _ _ => ctx
  | other _ => none

/-- The code a two-factor request carries. -/
def FactorRequest.code : FactorRequest → Option String
  | enable _ (.ok r) _ | disable _ (.ok r) => some r.code
  | regenerate _ (.ok code) _ => some code
  | _ => none

/-- The stored second factor of an owner column: the secret and the backup hashes. -/
def World.factor (w : World) (key : String) : Option (Secret × List String) :=
  (w.twoFA key).map fun t => (t.secret, t.backupHashes)

/-- The call replaces or removes a stored second factor. -/
def Replaces (key : String) (e : Entry ι World Op Ans) : Prop :=
  e.pre.factor key ≠ none ∧ e.post.factor key ≠ e.pre.factor key

/-- The request that makes the call `e` is the owner's, and carried a code found
valid for the secret stored before the call, or an unused stored backup code. -/
def Carried (P : Params) (reqs : ι → FactorRequest) (pre : List (Entry ι World Op Ans))
    (key : String) (e : Entry ι World Op Ans) : Prop :=
  ∃ cur ctx code, e.pre.twoFA key = some cur ∧ (reqs e.who).session = some ctx ∧
    P.ownerID (P.normalizeEmail ctx.email) = key ∧ (reqs e.who).code = some code ∧
    (⟨.validateCode (decryptTwoFASecret P ctx.dek cur) code, true⟩ ∈ proj e.who pre ∨
      (validateBackupCode P code cur.backupHashes).isSome)

/-- Every replacement of the owner's second factor carried a code for it. -/
def Guarded (P : Params) (reqs : ι → FactorRequest) (tr : List (Entry ι World Op Ans))
    (key : String) : Prop :=
  ∀ pre e post, tr = pre ++ e :: post → Replaces key e → Carried P reqs pre key e

/-- The requests are the authenticated two-factor requests; besides, time passes. -/
def Authenticated (reqs : ι → FactorRequest) : Prop :=
  ∀ i r, reqs i = .other r → ∃ d, r = .env (.tick d)

/-- No second factor is written over unseen. -/
structure EnabledOnce (P : Params) (reqs : ι → FactorRequest) (tr : List (Entry ι World Op Ans))
    (key : String) : Prop where
  /-- where `TwoFAEnable` writes over a row, the row holds the secret it was sent -/
  enable : ∀ e ∈ tr, ∀ ctx r draw t cur, reqs e.who = .enable (some ctx) (.ok r) draw →
    e.event = ⟨.saveTwoFA t, .ok ()⟩ → P.ownerID t.ownerEmail = key →
    e.pre.twoFA key = some cur → decryptTwoFASecret P ctx.dek cur = r.secret
  /-- between a request's lookup and its write, the stored secret stays as it was -/
  undisturbed : ∀ a x b y c owner, tr = a ++ x :: b ++ y :: c → x.who = y.who →
    x.op = .getTwoFA owner → P.ownerID owner = key → y.op.writesFactor = true →
    (y.pre.twoFA key).map TwoFA.secret = (x.pre.twoFA key).map TwoFA.secret

/-! ## Every run -/

section Runs

variable {P : Params} {reqs : ι → FactorRequest} {w : World} {tr : List (Entry ι World Op Ans)}
  {c : Conf ι World Op Ans TwoFAResp} {key : String}

theorem factor_eq_of_twoFA_eq {w w' : World} (h : w'.twoFA key = w.twoFA key) :
    w'.factor key = w.factor key := by
  rw [World.factor, World.factor, h]

/-- What a request has behind it at a call. -/
theorem factorRule_of_mem (hrun : Run (sem P) (startFactor P reqs w) tr c)
    {pre post : List (Entry ι World Op Ans)} {e : Entry ι World Op Ans}
    (htr : tr = pre ++ e :: post) : FactorRule P (reqs e.who) (proj e.who pre) e.op := by
  obtain ⟨c₁, hpre, -, ⟨k, hk⟩, -⟩ := hrun.cut htr
  exact hpre.along (fun i => factorRule_prog P (reqs i)) hk

/-- A request of the environment that lets time pass does nothing else. -/
theorem op_of_tick (hrun : Run (sem P) (startFactor P reqs w) tr c)
    {pre post : List (Entry ι World Op Ans)} {e : Entry ι World Op Ans} {d : Nat}
    (htr : tr = pre ++ e :: post) (hreq : reqs e.who = .other (.env (.tick d))) :
    e.op = .tick d := by
  obtain ⟨c₁, hpre, -, ⟨k, hk⟩, -⟩ := hrun.cut htr
  have hpath := hpre.path e.who
  rw [hk] at hpath
  have halong : Along (fun _ o => o = .tick d) (fun _ _ => True) ((reqs e.who).prog P) [] := by
    rw [hreq]
    exact ⟨rfl, fun _ => trivial⟩
  exact (halong.path hpath).1

/-- A write that succeeds stores the row. -/
theorem saveTwoFA_row {t : TwoFA} {w w' : World} (h : sem P (.saveTwoFA t) w (.ok ()) w') :
    w'.twoFA = Function.update w.twoFA (P.ownerID t.ownerEmail)
      (some { t with enabledAt := some (t.enabledAt.getD w.now) }) := by
  obtain ⟨hok, rfl⟩ := sem_answer h fun _ => nofun
  simp only [exec, World.saveTwoFA] at hok ⊢
  split at hok
  · cases hok
  · rename_i hreq
    rw [if_neg hreq]

/-- A deletion that succeeds leaves no row. -/
theorem deleteTwoFA_row {owner : String} {w w' : World}
    (h : sem P (.deleteTwoFA owner) w (.ok ()) w') :
    w'.twoFA = Function.update w.twoFA (P.ownerID owner) none := by
  obtain ⟨-, rfl⟩ := sem_answer h fun _ => nofun
  simp only [exec, World.deleteTwoFA]

theorem deleteTwoFA_error {owner : String} {err : Err} {w w' : World}
    (h : sem P (.deleteTwoFA owner) w (.error err) w') : w' = w := by
  rcases sem_cases h with ⟨hr, -⟩ | ⟨e, -, rfl⟩
  · cases hr
  · rfl

/-- **What a call does to a stored row**: a write or a deletion that succeeds
changes its owner's row, and nothing else changes a row. -/
theorem twoFA_cases (key : String) {v : Event Op Ans} {w w' : World} (h : sem P v.1 w v.2 w') :
    (∃ t, v = ⟨.saveTwoFA t, .ok ()⟩ ∧ P.ownerID t.ownerEmail = key) ∨
      (∃ owner, v = ⟨.deleteTwoFA owner, .ok ()⟩ ∧ P.ownerID owner = key) ∨
      w'.twoFA key = w.twoFA key := by
  obtain ⟨op, ans⟩ := v
  by_cases hpart : op.part = .twoFA
  · cases op with
    | getTwoFA owner => exact .inr (.inr (congrArg (World.twoFA · key) (sem_read h rfl)))
    | saveTwoFA t =>
      rcases ans with err | ⟨⟩
      · exact .inr (.inr (congrArg (World.twoFA · key) (saveTwoFA_error h)))
      · by_cases howner : P.ownerID t.ownerEmail = key
        · exact .inl ⟨t, rfl, howner⟩
        · rw [saveTwoFA_row h, Function.update_of_ne (Ne.symm howner)]
          exact .inr (.inr rfl)
    | deleteTwoFA owner =>
      rcases ans with err | ⟨⟩
      · exact .inr (.inr (congrArg (World.twoFA · key) (deleteTwoFA_error h)))
      · by_cases howner : P.ownerID owner = key
        · exact .inr (.inl ⟨owner, rfl, howner⟩)
        · rw [deleteTwoFA_row h, Function.update_of_ne (Ne.symm howner)]
          exact .inr (.inr rfl)
    | _ => cases hpart
  · exact .inr (.inr (congrFun ((sem_frame h).twoFA hpart) key))

/-- A lookup shows the stored row, under the owner it was asked for. -/
theorem getTwoFA_row {owner : String} {t : TwoFA} {w w' : World}
    (h : sem P (.getTwoFA owner) w (.ok (some t)) w') :
    ∃ t', w.twoFA (P.ownerID owner) = some t' ∧ t = { t' with ownerEmail := owner } := by
  have hrow := getTwoFA_answer h
  rw [World.getTwoFA] at hrow
  obtain ⟨t', ht', rfl⟩ := Option.map_eq_some_iff.mp hrow.symm
  exact ⟨t', ht', rfl⟩

theorem decryptTwoFASecret_congr (dek : Option Nat) {t t' : TwoFA} (h : t.secret = t'.secret) :
    decryptTwoFASecret P dek t = decryptTwoFASecret P dek t' := by
  cases dek <;> simp only [decryptTwoFASecret, h]

/-- The lookup behind the shared checks, as an entry of the run. -/
theorem lookup_of_checked (hrun : Run (sem P) (startFactor P reqs w) tr c)
    {pre post : List (Entry ι World Op Ans)} {e : Entry ι World Op Ans}
    (htr : tr = pre ++ e :: post) {ctx : FactorContext} {code : String} {t : TwoFA}
    (hchecked : Checked P ctx code t (proj e.who pre)) :
    ∃ a x b row, pre = a ++ x :: b ∧ x.who = e.who ∧
      x.op = .getTwoFA (P.normalizeEmail ctx.email) ∧
      x.pre.twoFA (P.ownerID (P.normalizeEmail ctx.email)) = some row ∧
      t = { row with ownerEmail := P.normalizeEmail ctx.email } := by
  obtain ⟨a, x, b, rfl, -, hwho, hev, -⟩ := proj_eq_cons hchecked
  have hsem := hrun.sem_of_mem (e := x) (by simp [htr])
  obtain ⟨xwho, xop, xans, xpre, xpost⟩ := x
  cases hev
  obtain ⟨row, hrow, ht⟩ := getTwoFA_row hsem
  exact ⟨a, _, b, row, rfl, hwho, rfl, hrow, ht⟩

/-- A row that was loaded and checked, and is still stored when it is written or
deleted: the request carried a code for it. -/
theorem carried_of_checked (hrun : Run (sem P) (startFactor P reqs w) tr c)
    (honce : EnabledOnce P reqs tr key) {pre post : List (Entry ι World Op Ans)}
    {e : Entry ι World Op Ans} (htr : tr = pre ++ e :: post) (hwrites : e.op.writesFactor = true)
    {ctx : FactorContext} {code : String} {t cur : TwoFA} (hcur : e.pre.twoFA key = some cur)
    (hctx : (reqs e.who).session = some ctx) (hcode : (reqs e.who).code = some code)
    (hkey : P.ownerID (P.normalizeEmail ctx.email) = key)
    (hchecked : Checked P ctx code t (proj e.who pre)) : Carried P reqs pre key e := by
  obtain ⟨a, x, b, row, rfl, hwho, hop, hrow, rfl⟩ := lookup_of_checked hrun htr hchecked
  have hsame := honce.undisturbed a x b e post _ (by simp [htr]) hwho hop hkey hwrites
  rw [hkey] at hrow
  rw [hcur, hrow] at hsame
  have hsecret : cur.secret = row.secret := Option.some.inj hsame
  have hsame : decryptTwoFASecret P ctx.dek cur = decryptTwoFASecret P ctx.dek
      { row with ownerEmail := P.normalizeEmail ctx.email } :=
    decryptTwoFASecret_congr ctx.dek hsecret
  refine ⟨cur, ctx, code, hcur, hctx, hkey, hcode, .inl ?_⟩
  rw [hsame, hchecked]
  simp

/-- A write of the owner's row carried a code for what it replaces. -/
theorem carried_of_save (hrun : Run (sem P) (startFactor P reqs w) tr c)
    (hauth : Authenticated reqs) (honce : EnabledOnce P reqs tr key)
    {pre post : List (Entry ι World Op Ans)} {e : Entry ι World Op Ans}
    (htr : tr = pre ++ e :: post) {t cur : TwoFA} (hev : e.event = ⟨.saveTwoFA t, .ok ()⟩)
    (hkey : P.ownerID t.ownerEmail = key) (hcur : e.pre.twoFA key = some cur) :
    Carried P reqs pre key e := by
  have hop : e.op = .saveTwoFA t := congrArg Sigma.fst hev
  have hallowed := (factorRule_of_mem hrun htr).save t hop
  rcases hreq : reqs e.who with ⟨L, ctx, body, random⟩ | ⟨ctx, body, draw⟩ | ⟨ctx, body⟩ |
    ⟨ctx, body, draw⟩ | r
  · rw [hreq] at hallowed
    exact hallowed.elim
  · rw [hreq] at hallowed
    rcases ctx with _ | ctx
    · exact hallowed.elim
    rcases body with err | r
    · exact hallowed.elim
    obtain ⟨howner, -, hvalid⟩ := hallowed
    have hsecret := honce.enable e (by simp [htr]) ctx r draw t cur hreq hev hkey hcur
    refine ⟨cur, ctx, r.code, hcur, by rw [hreq]; rfl, howner ▸ hkey, by rw [hreq]; rfl, .inl ?_⟩
    rw [hsecret]
    exact hvalid
  · rw [hreq] at hallowed
    exact hallowed.elim
  · rw [hreq] at hallowed
    rcases ctx with _ | ctx
    · exact hallowed.elim
    rcases body with err | code
    · exact hallowed.elim
    obtain ⟨t₀, hchecked, rfl⟩ := hallowed
    obtain ⟨-, -, -, row, -, -, -, -, rfl⟩ := lookup_of_checked hrun htr hchecked
    exact carried_of_checked hrun honce htr (by rw [hop]; rfl) hcur (by rw [hreq]; rfl)
      (by rw [hreq]; rfl) hkey hchecked
  · obtain ⟨d, rfl⟩ := hauth _ _ hreq
    rw [op_of_tick hrun htr hreq] at hop
    cases hop

/-- A deletion of the owner's row carried a code for it. -/
theorem carried_of_delete (hrun : Run (sem P) (startFactor P reqs w) tr c)
    (hauth : Authenticated reqs) (honce : EnabledOnce P reqs tr key)
    {pre post : List (Entry ι World Op Ans)} {e : Entry ι World Op Ans}
    (htr : tr = pre ++ e :: post) {owner : String} {cur : TwoFA} (hop : e.op = .deleteTwoFA owner)
    (hkey : P.ownerID owner = key) (hcur : e.pre.twoFA key = some cur) :
    Carried P reqs pre key e := by
  have hallowed := (factorRule_of_mem hrun htr).delete owner hop
  rcases hreq : reqs e.who with ⟨L, ctx, body, random⟩ | ⟨ctx, body, draw⟩ | ⟨ctx, body⟩ |
    ⟨ctx, body, draw⟩ | r
  · rw [hreq] at hallowed
    exact hallowed.elim
  · rw [hreq] at hallowed
    exact hallowed.elim
  · rw [hreq] at hallowed
    rcases ctx with _ | ctx
    · exact hallowed.elim
    rcases body with err | r
    · exact hallowed.elim
    obtain ⟨rfl, t₀, hchecked⟩ := hallowed
    exact carried_of_checked hrun honce htr (by rw [hop]; rfl) hcur (by rw [hreq]; rfl)
      (by rw [hreq]; rfl) hkey hchecked
  · rw [hreq] at hallowed
    exact hallowed.elim
  · obtain ⟨d, rfl⟩ := hauth _ _ hreq
    rw [op_of_tick hrun htr hreq] at hop
    cases hop

/-- **Nobody replaces a second factor unseen**, in any interleaving of two-factor
requests of any owners in which `TwoFAEnable` writes over no other secret. -/
theorem guarded_of_enabledOnce (hrun : Run (sem P) (startFactor P reqs w) tr c)
    (hauth : Authenticated reqs) (honce : EnabledOnce P reqs tr key) : Guarded P reqs tr key := by
  intro pre e post htr hreplaces
  obtain ⟨hstored, hchanged⟩ := hreplaces
  obtain ⟨cur, hcur⟩ : ∃ cur, e.pre.twoFA key = some cur := by
    refine Option.ne_none_iff_exists'.mp fun hnone => hstored ?_
    rw [World.factor, hnone, Option.map_none]
  have hsem := hrun.sem_of_mem (e := e) (by simp [htr])
  rcases twoFA_cases (v := e.event) key hsem with ⟨t, hev, hkey⟩ | ⟨owner, hev, hkey⟩ | hsame
  · exact carried_of_save hrun hauth honce htr hev hkey hcur
  · exact carried_of_delete hrun hauth honce htr (congrArg Sigma.fst hev) hkey hcur
  · exact absurd (factor_eq_of_twoFA_eq hsame) hchanged

end Runs

/-! ## Runs -/

/-- A session of the enrolled owner. -/
def stolenSession : FactorContext := ⟨"a@x", some 0⟩

/-- `TwoFAEnable` with a secret of the caller's own, and a code of it. -/
def takeOver : FactorRequest := .enable (some stolenSession) (.ok ⟨"654321", "654321"⟩) fun _ => "new"

/-- The owner disables the second factor and enables a new one. -/
def renewal (second : Bool) : FactorRequest :=
  if second then takeOver else .disable (some stolenSession) (.ok ⟨"", "123456"⟩)

/-- The two requests of `renewal`, one after the other. -/
def renewalRun : List (Entry Bool World Op Ans) × Conf Bool World Op Ans TwoFAResp :=
  runFactor .sample (fun _ => false) (List.replicate 5 false ++ List.replicate 5 true) renewal
    enrolled

/-- One call of `TwoFAEnable`. -/
def takeOverRun : List (Entry Unit World Op Ans) × Conf Unit World Op Ans TwoFAResp :=
  runFactor .sample (fun _ => false) (List.replicate 5 ()) (fun _ => takeOver) enrolled

instance (key : String) (e : Entry ι World Op Ans) : Decidable (Replaces key e) := by
  unfold Replaces
  infer_instance

theorem authenticated_renewal : Authenticated renewal := by
  intro second r h
  cases second <;> cases h

theorem authenticated_takeOver : Authenticated fun _ : Unit => takeOver := by
  intro i r h
  cases h

/-- In the renewal the row is gone when `TwoFAEnable` writes. -/
theorem enabledOnce_renewalRun : EnabledOnce .sample renewal renewalRun.1 "a@x" := by
  constructor
  · intro e he ctx r draw t cur hreq _ _ hcur
    have hall : ∀ e ∈ renewalRun.1, e.who = true → e.pre.twoFA "a@x" = none := by decide
    rcases hwho : e.who with _ | _
    · rw [hwho] at hreq
      cases hreq
    · rw [hall e he hwho] at hcur
      cases hcur
  · intro a x b y c owner htr hwho _ _ hwrites
    have hpair : renewalRun.1.Pairwise fun x y => x.who = y.who → y.op.writesFactor = true →
        (y.pre.twoFA "a@x").map TwoFA.secret = (x.pre.twoFA "a@x").map TwoFA.secret := by
      decide
    rw [htr, List.append_assoc] at hpair
    have hxy := List.rel_of_pairwise_cons (List.pairwise_append.mp hpair).2.1
      (show y ∈ _ by simp)
    exact hxy hwho hwrites

/-- The rule on a run that replaces a second factor. -/
theorem guarded_renewalRun :
    (∃ e ∈ renewalRun.1, Replaces "a@x" e) ∧ Guarded .sample renewal renewalRun.1 "a@x" :=
  ⟨by decide +kernel, guarded_of_enabledOnce (run_runFactor _ _ _ _ _) authenticated_renewal
    enabledOnce_renewalRun⟩

/-- The secret a call has found a code valid for. -/
def validSecret : Event Op Ans → Option String
  | ⟨.validateCode secret _, true⟩ => some secret
  | _ => none

/-- **`TwoFAEnable` replaces an enabled second factor** for whoever holds a session. -/
theorem takeOver_unguarded :
    Run (sem .sample) (startFactor .sample (fun _ => takeOver) enrolled) takeOverRun.1
        takeOverRun.2 ∧
      Authenticated (fun _ : Unit => takeOver) ∧
      ¬Guarded .sample (fun _ => takeOver) takeOverRun.1 "a@x" := by
  refine ⟨run_runFactor _ _ _ _ _, authenticated_takeOver, fun hguarded => ?_⟩
  have hex : ∃ e ∈ takeOverRun.1, Replaces "a@x" e := by decide +kernel
  obtain ⟨e, he, hreplaces⟩ := hex
  obtain ⟨pre, post, htr⟩ := List.append_of_mem he
  obtain ⟨cur, ctx, code, hcur, hctx, -, hcode, hvalid⟩ := hguarded pre e post htr hreplaces
  obtain rfl := Option.some.inj hctx
  obtain rfl := Option.some.inj hcode
  have hrow : ∀ e ∈ takeOverRun.1, e.pre.twoFA "a@x" =
      some ⟨"a@x", .plain "123456", ["backup"], some 0⟩ := by decide +kernel
  obtain rfl := Option.some.inj (hcur.symm.trans (hrow e he))
  rcases hvalid with hvalid | hbackup
  · -- the one code found valid was of the caller's secret
    have hnone : ∀ e ∈ takeOverRun.1, validSecret e.event ≠ some "123456" := by decide +kernel
    obtain ⟨e', he', -, hev⟩ := mem_proj.mp hvalid
    refine hnone e' (by rw [htr]; simp [he']) ?_
    rw [hev]
    rfl
  · revert hbackup
    decide +kernel

end E2Mail.Backend
