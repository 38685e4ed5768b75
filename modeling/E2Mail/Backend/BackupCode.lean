import E2Mail.Backend.SecondFactor

/-!
# Backup codes are used once

`Verify2FA` takes a backup code out of the stored list by reading the whole row,
removing the hash, and writing the whole row back; the session is created
whether or not the write succeeds. A code is used up when the write is applied
to the row that was read:

* `SavesApply` — no write that would change the hashes fails, and a row is
  written back over the hashes it was read with;
* `backupSessions_le` — then, in every run, a code creates at most as many
  sessions as there are copies of its hash stored at the start.
-/

namespace E2Mail.Backend

open Lib

variable {ι : Type} [DecidableEq ι]

/-! ## The property -/

/-- The stored backup hashes of an owner column. -/
def World.backupHashes (w : World) (key : String) : List String :=
  ((w.twoFA key).map TwoFA.backupHashes).getD []

/-- The code a call has found to be no valid TOTP code. -/
def rejectedCode : Event Op Ans → Option String
  | ⟨.validateCode _ code, false⟩ => some code
  | _ => none

theorem rejectedCode_eq_some {v : Event Op Ans} {code : String} (h : rejectedCode v = some code) :
    ∃ secret, v = ⟨.validateCode secret code, false⟩ := by
  obtain ⟨o, r⟩ := v
  cases o with
  | validateCode secret code' =>
    cases r with
    | false =>
      obtain rfl := Option.some.inj h
      exact ⟨secret, rfl⟩
    | true => cases h
  | _ => cases h

/-- The call of the run created a session, for the owner column `key`, of a
`Verify2FA` request whose code was no valid TOTP code and has the hash `hash`. -/
def ByBackupCode (P : Params) (reqs : ι → Request) (tr : List (Entry ι World Op Ans))
    (key hash : String) (e : Entry ι World Op Ans) : Prop :=
  ∃ pre post sess ip r, tr = pre ++ e :: post ∧ createdSession e.event = some sess ∧
    reqs e.who = .verify2FA ip (.ok r) ∧ P.ownerID sess.email = key ∧
    P.hashCode (P.upper (trimSpace (trimSpace r.code))) = hash ∧
    some (trimSpace r.code) ∈ (proj e.who pre).map rejectedCode

/-- The writes of two-factor rows do what they were meant to. -/
structure SavesApply (P : Params) (tr : List (Entry ι World Op Ans)) : Prop where
  /-- a write that would change the stored hashes does not fail -/
  succeeds : ∀ e ∈ tr, ∀ t err, e.event = ⟨.saveTwoFA t, .error err⟩ →
    e.pre.backupHashes (P.ownerID t.ownerEmail) = t.backupHashes
  /-- between a request's lookup of a row and its write, the stored hashes stay as they were -/
  undisturbed : ∀ a x b y c owner t, tr = a ++ x :: b ++ y :: c → x.who = y.who →
    x.op = .getTwoFA owner → y.op = .saveTwoFA t →
    (∀ z ∈ b, z.who = y.who → z.op ≠ .getTwoFA owner) →
    y.pre.backupHashes (P.ownerID owner) = x.pre.backupHashes (P.ownerID owner)

/-! ## What a write does -/

section Writes

variable {P : Params} {reqs : ι → Request} {w : World} {tr : List (Entry ι World Op Ans)}
  {c : Conf ι World Op Ans Resp}

theorem backupHashes_of_twoFA_eq {w w' : World} (h : w'.twoFA = w.twoFA) (key : String) :
    w'.backupHashes key = w.backupHashes key := by
  rw [World.backupHashes, World.backupHashes, h]

/-- A lookup shows the stored hashes, under the owner it was asked for. -/
theorem getTwoFA_hashes {owner : String} {t : TwoFA} {w w' : World}
    (h : sem P (.getTwoFA owner) w (.ok (some t)) w') :
    t.ownerEmail = owner ∧ w.backupHashes (P.ownerID owner) = t.backupHashes := by
  have hrow := getTwoFA_answer h
  rw [World.getTwoFA] at hrow
  obtain ⟨t', ht', rfl⟩ := Option.map_eq_some_iff.mp hrow.symm
  exact ⟨rfl, by rw [World.backupHashes, ht']; rfl⟩

/-- A write that succeeds replaces its owner's hashes and no others. -/
theorem saveTwoFA_hashes {t : TwoFA} {w w' : World} (h : sem P (.saveTwoFA t) w (.ok ()) w')
    (key : String) : w'.backupHashes key =
      if key = P.ownerID t.ownerEmail then t.backupHashes else w.backupHashes key := by
  obtain ⟨hok, rfl⟩ := sem_answer h fun _ => nofun
  simp only [exec, World.saveTwoFA] at hok ⊢
  split at hok
  · cases hok
  · rename_i hreq
    rw [if_neg hreq]
    by_cases hkey : key = P.ownerID t.ownerEmail
    · subst hkey
      simp [World.backupHashes]
    · simp [World.backupHashes, hkey]

/-- A write that fails changes nothing. -/
theorem saveTwoFA_error {t : TwoFA} {err : Err} {w w' : World}
    (h : sem P (.saveTwoFA t) w (.error err) w') : w' = w := by
  rcases sem_cases h with ⟨hr, rfl⟩ | ⟨e, -, rfl⟩
  · simp only [exec, World.saveTwoFA] at hr ⊢
    split at hr
    · rename_i hreq
      rw [if_pos hreq]
    · cases hr
  · rfl

theorem deleteTwoFA_hashes {owner : String} {r : Res Unit} {w w' : World}
    (h : sem P (.deleteTwoFA owner) w r w') (key : String) :
    w'.backupHashes key = [] ∨ w'.backupHashes key = w.backupHashes key := by
  rcases sem_cases h with ⟨-, rfl⟩ | ⟨e, -, rfl⟩
  · simp only [exec, World.deleteTwoFA, World.backupHashes]
    by_cases hkey : key = P.ownerID owner
    · subst hkey
      exact .inl (by simp)
    · exact .inr (by simp [hkey])
  · exact .inr rfl

/-- The lookup behind a write, as entries of the run. -/
theorem lookup_of_save (hrun : Run (sem P) (start P reqs w) tr c)
    (henv : ∀ i t, reqs i ≠ .env (.saveTwoFA t)) {pre post : List (Entry ι World Op Ans)}
    {y : Entry ι World Op Ans} {t : TwoFA} (htr : tr = pre ++ y :: post)
    (hop : y.op = .saveTwoFA t) :
    ∃ a x b owner, pre = a ++ x :: b ∧ x.who = y.who ∧ x.op = .getTwoFA owner ∧
      (∀ z ∈ b, z.who = y.who → z.op ≠ .getTwoFA owner) ∧ t.ownerEmail = owner ∧
      (t.backupHashes.Sublist (x.pre.backupHashes (P.ownerID owner))) := by
  obtain ⟨c₁, hpre, -, ⟨k, hk⟩, -⟩ := hrun.cut htr
  have hrule := hpre.along (fun i => pathRule_prog P (reqs i)) hk
  rcases hrule.save t hop with hbad | ⟨owner, t₀, h₁, h₂, hproj, hlast, howner, hhashes⟩
  · exact absurd hbad (henv _ t)
  obtain ⟨tr₁, tr₂, rfl, -, htr₂⟩ := proj_eq_append hproj
  obtain ⟨a, x, b, rfl, -, hxwho, hxev, hb⟩ := proj_eq_cons htr₂
  have hxsem := hpre.sem_of_mem (e := x) (by simp)
  obtain ⟨xwho, xop, xans, xpre, xpost⟩ := x
  cases hxev
  obtain ⟨hemail, hstored⟩ := getTwoFA_hashes hxsem
  refine ⟨tr₁ ++ a, _, b, owner, by simp, hxwho, rfl, ?_, howner.trans hemail, ?_⟩
  · intro z hz hzwho
    refine hlast z.event ?_
    rw [← hb]
    exact mem_proj.mpr ⟨z, hz, hzwho, rfl⟩
  · rw [hstored]
    rcases hhashes with heq | ⟨idx, rfl⟩
    · rw [heq]
    · exact List.eraseIdx_sublist ..

/-- **No call adds a stored hash.** -/
theorem count_hashes_le (hrun : Run (sem P) (start P reqs w) tr c)
    (henv : ∀ i t, reqs i ≠ .env (.saveTwoFA t)) (hsaves : SavesApply P tr) (key hash : String) :
    ∀ e ∈ tr, (e.post.backupHashes key).count hash ≤ (e.pre.backupHashes key).count hash := by
  intro e he
  have hsem := hrun.sem_of_mem he
  obtain ⟨pre, post, htr⟩ := List.append_of_mem he
  obtain ⟨who, op, ans, epre, epost⟩ := e
  by_cases hpart : op.part = .twoFA
  · cases op with
    | getTwoFA owner => rw [show epost = epre from sem_read hsem rfl]
    | saveTwoFA t =>
      rcases ans with err | ⟨⟩
      · rw [show epost = epre from saveTwoFA_error hsem]
      · show (epost.backupHashes key).count hash ≤ (epre.backupHashes key).count hash
        rw [saveTwoFA_hashes hsem key]
        split
        · rename_i hkey
          obtain ⟨a, x, b, owner, rfl, hx, hxop, hlast, howner, hsub⟩ :=
            lookup_of_save hrun henv htr rfl
          have hsame := hsaves.undisturbed a x b _ post owner t htr hx hxop rfl hlast
          rw [hkey, howner]
          exact hsame ▸ hsub.count_le hash
        · exact Nat.le_refl _
    | deleteTwoFA owner =>
      show (epost.backupHashes key).count hash ≤ (epre.backupHashes key).count hash
      rcases deleteTwoFA_hashes hsem key with hnil | hsame
      · rw [hnil]
        exact Nat.zero_le _
      · rw [hsame]
    | _ => cases hpart
  · have hframe := (sem_frame hsem).twoFA hpart
    rw [show epost.backupHashes key = epre.backupHashes key from backupHashes_of_twoFA_eq hframe key]

theorem count_eraseIdx_lt {l : List String} {idx : Nat} {a : String} (h : l[idx]? = some a) :
    (l.eraseIdx idx).count a < l.count a := by
  have hsplit : l = l.take idx ++ a :: l.drop (idx + 1) := by
    obtain ⟨hlt, rfl⟩ := List.getElem?_eq_some_iff.mp h
    rw [List.getElem_cons_drop, List.take_append_drop]
  have hcount : l.count a = (l.take idx).count a + ((l.drop (idx + 1)).count a + 1) := by
    rw [← List.count_cons_self, ← List.count_append, ← hsplit]
  rw [List.eraseIdx_eq_take_drop_succ, List.count_append]
  omega

/-- The code's hash is the one its index points at. -/
theorem validateBackupCode_eq_some {code : String} {hashes : List String} {idx : Nat}
    (h : validateBackupCode P code hashes = some idx) :
    hashes[idx]? = some (P.hashCode (P.upper (trimSpace code))) := by
  obtain ⟨hlt, hcode, -⟩ := List.findIdx?_eq_some_iff_getElem.mp h
  rw [List.getElem?_eq_getElem hlt, of_decide_eq_true hcode]

/-- A session by a backup code has a write behind it that took the hash out. -/
theorem consumes_of_byBackupCode (hrun : Run (sem P) (start P reqs w) tr c)
    (hsaves : SavesApply P tr) {key hash : String} {e : Entry ι World Op Ans}
    (he : ByBackupCode P reqs tr key hash e) :
    ∃ y ∈ tr, y.who = e.who ∧
      (y.post.backupHashes key).count hash < (y.pre.backupHashes key).count hash := by
  obtain ⟨pre, post, sess, ip, r, htr, hsess, hreq, hkey, hhash, hinvalid⟩ := he
  obtain ⟨c₁, hpre, hgrounds⟩ := grounds_of_sessionCreate hrun htr hsess
  rw [hreq] at hgrounds
  rcases hgrounds.2 with ⟨-, hno⟩ | ⟨t, idx, ans, h₁, h₂, h₃, hproj, hlast, hidx⟩
  · obtain ⟨v, hv, hcode⟩ := List.mem_map.mp hinvalid
    obtain ⟨secret, rfl⟩ := rejectedCode_eq_some hcode
    exact absurd hv (hno secret _)
  -- the lookup `x` and the write `y` behind the session
  rw [List.append_assoc] at hproj
  obtain ⟨tr₁, tr₂, rfl, -, htr₂⟩ := proj_eq_append hproj
  obtain ⟨a, x, b, rfl, -, hxwho, hxev, hb⟩ := proj_eq_cons htr₂
  obtain ⟨b₁, b₂, rfl, hb₁, hb₂⟩ := proj_eq_append hb
  obtain ⟨b₃, y, d, rfl, hb₃, hywho, hyev, -⟩ := proj_eq_cons hb₂
  have hxsem := hpre.sem_of_mem (e := x) (by simp)
  have hysem := hpre.sem_of_mem (e := y) (by simp)
  have hmem : y ∈ tr := by
    rw [htr]
    simp
  have hsplit : tr = tr₁ ++ a ++ x :: (b₁ ++ b₃) ++ y :: (d ++ e :: post) := by
    rw [htr]
    simp
  have hbetween : ∀ z ∈ b₁ ++ b₃, z.who = y.who → z.op ≠ .getTwoFA sess.email := by
    intro z hz hzwho
    have hev : z.event ∈ proj e.who (b₁ ++ b₃) := mem_proj.mpr ⟨z, hz, hzwho.trans hywho, rfl⟩
    rw [proj_append, hb₁, hb₃, List.append_nil] at hev
    exact hlast z.event hev
  obtain ⟨xwho, xop, xans, xpre, xpost⟩ := x
  obtain ⟨ywho, yop, yans, ypre, ypost⟩ := y
  cases hxev
  cases hyev
  obtain ⟨hemail, hstored⟩ := getTwoFA_hashes hxsem
  have hsame := hsaves.undisturbed _ _ _ _ _ sess.email _ hsplit (hxwho.trans hywho.symm) rfl rfl
    hbetween
  have hcode := validateBackupCode_eq_some hidx
  rw [hhash] at hcode
  have howner : P.ownerID (t.without idx).ownerEmail = key := by
    rw [← hkey, ← hemail]
    rfl
  rw [hkey] at hsame hstored
  refine ⟨_, hmem, hywho, ?_⟩
  rcases yans with err | ⟨⟩
  · -- a failing write would have changed the hashes
    have hlost := hsaves.succeeds _ hmem _ err rfl
    rw [howner, hsame, hstored] at hlost
    have hlt := count_eraseIdx_lt hcode
    rw [show t.backupHashes.eraseIdx idx = t.backupHashes from hlost.symm] at hlt
    exact absurd hlt (Nat.lt_irrefl _)
  · show (ypost.backupHashes key).count hash < (ypre.backupHashes key).count hash
    rw [saveTwoFA_hashes hysem key, if_pos howner.symm, hsame, hstored]
    exact count_eraseIdx_lt hcode

end Writes

/-- The requests that have created a session are distinct. -/
theorem nodup_sessions {P : Params} {reqs : ι → Request} {w : World}
    {tr : List (Entry ι World Op Ans)} {c : Conf ι World Op Ans Resp}
    (hrun : Run (sem P) (start P reqs w) tr c) :
    ((tr.filter fun e => e.op.part == .sessions).map Entry.who).Nodup := by
  refine hrun.nodup_who (q := fun o => o.part == .sessions)
    (fun i => pathRule_prog P (reqs i)) fun i h o hrule ho v hv => ?_
  cases o with
  | sessionCreate s dek => exact beq_eq_false_iff_ne.mpr ((hrule.session s dek rfl).2 v hv)
  | _ => cases ho

/-- **A backup code is used once.** In every run in which the writes apply, of
any number of requests of any owners, the sessions created by one backup code
are at most as many as the copies of its hash stored at the start. -/
theorem backupSessions_le {P : Params} {reqs : ι → Request} {w : World}
    {tr es : List (Entry ι World Op Ans)} {c : Conf ι World Op Ans Resp}
    (hrun : Run (sem P) (start P reqs w) tr c) (henv : ∀ i t, reqs i ≠ .env (.saveTwoFA t))
    (hsaves : SavesApply P tr) (key hash : String) (hsub : es.Sublist tr)
    (hes : ∀ e ∈ es, ByBackupCode P reqs tr key hash e) :
    es.length ≤ (w.backupHashes key).count hash := by
  -- the sessions have distinct callers
  have hsess : es.filter (fun e => e.op.part == .sessions) = es := by
    refine List.filter_eq_self.mpr fun e he => ?_
    obtain ⟨_, _, sess, _, _, _, hsess, _⟩ := hes e he
    obtain ⟨s, dek, hev⟩ := createdSession_eq_some.mp hsess
    obtain ⟨who, op, ans, pre, post⟩ := e
    cases hev
    rfl
  have hnodup : (es.map Entry.who).Nodup := by
    refine (nodup_sessions hrun).sublist ?_
    rw [← hsess]
    exact (hsub.filter _).map _
  -- and each caller has lowered the count of stored copies
  let lowers : Entry ι World Op Ans → Bool := fun e =>
    decide ((e.post.backupHashes key).count hash < (e.pre.backupHashes key).count hash)
  have hcallers : es.map Entry.who ⊆ (tr.filter lowers).map Entry.who := by
    intro i hi
    obtain ⟨e, he, rfl⟩ := List.mem_map.mp hi
    obtain ⟨y, hy, hwho, hlt⟩ := consumes_of_byBackupCode hrun hsaves (hes e he)
    exact List.mem_map.mpr ⟨y, List.mem_filter.mpr ⟨hy, decide_eq_true hlt⟩, hwho⟩
  have hlen := (List.subperm_of_subset hnodup hcallers).length_le
  have hpaid := hrun.countP_lowers_le (m := fun w => (w.backupHashes key).count hash)
    (count_hashes_le hrun henv hsaves key hash)
  rw [List.length_map, List.length_map] at hlen
  calc es.length ≤ (tr.filter lowers).length := hlen
    _ = tr.countP lowers := List.countP_eq_length_filter.symm
    _ ≤ (w.backupHashes key).count hash := by
      have hle := Nat.le_of_add_right_le hpaid
      exact hle

/-! ## Runs -/

/-- The password step of `passwordLogin`, done. -/
def challengedLogin : PendingLogin where
  email := "a@x"
  username := "a@x"
  password := "pw"
  imapHost := "imap"
  imapPort := 993
  imapUseTLS := true
  imapAllowInsecureTLS := false
  smtpHost := "smtp"
  smtpPort := 587
  smtpUseTLS := true
  smtpAllowInsecureTLS := false
  expiresAt := 180

/-- The enrolled owner, two of whose password logins wait for a code. -/
def challenged : World :=
  { enrolled with pending := fun id => if id = "p1" ∨ id = "p2" then some challengedLogin else none }

/-- The same backup code, for one or the other pending login. -/
def sameCode (second : Bool) : Request :=
  .verify2FA "ip" (.ok ⟨if second then "p2" else "p1", "backup"⟩)

/-- One use of the code. -/
def singleUse : List (Entry Unit World Op Ans) × Conf Unit World Op Ans Resp :=
  runFaulty .sample (fun _ => false) (List.replicate 30 ()) (fun _ => sameCode false) challenged

/-- A row that is read and then written has the same hashes at both calls. -/
def sameHashes {ι : Type} (x y : Entry ι World Op Ans) : Bool :=
  match x.op, y.op with
  | .getTwoFA owner, .saveTwoFA _ =>
    y.pre.backupHashes (Params.sample.ownerID owner) =
      x.pre.backupHashes (Params.sample.ownerID owner)
  | _, _ => true

/-- The write has not failed. -/
def applied {ι : Type} (e : Entry ι World Op Ans) : Bool :=
  match e.event with
  | ⟨.saveTwoFA _, .error _⟩ => false
  | _ => true

theorem savesApply_singleUse : SavesApply .sample singleUse.1 := by
  constructor
  · intro e he t err hev
    have hall : ∀ e ∈ singleUse.1, applied e = true := by decide
    have happlied := hall e he
    rw [applied, hev] at happlied
    cases happlied
  · intro a x b y c owner t htr _ hxop hyop _
    have hpair : singleUse.1.Pairwise fun x y => sameHashes x y = true := by decide
    rw [htr, List.append_assoc] at hpair
    have hxy := List.rel_of_pairwise_cons (List.pairwise_append.mp hpair).2.1
      (show y ∈ _ by simp)
    rw [sameHashes, hxop, hyop] at hxy
    exact of_decide_eq_true hxy

/-- The call at an index of a run is a session by a backup code. -/
theorem byBackupCode_getElem {P : Params} {reqs : ι → Request} {tr : List (Entry ι World Op Ans)}
    {k : Nat} (hk : k < tr.length) (email ip : String) (r : Verify2FARequest) {key hash : String}
    (hreq : reqs tr[k].who = .verify2FA ip (.ok r))
    (hsess : (createdSession tr[k].event).map Session.email = some email)
    (hkey : P.ownerID email = key)
    (hhash : P.hashCode (P.upper (trimSpace (trimSpace r.code))) = hash)
    (hcode : some (trimSpace r.code) ∈ (proj tr[k].who (tr.take k)).map rejectedCode) :
    ByBackupCode P reqs tr key hash tr[k] := by
  obtain ⟨sess, hsess', rfl⟩ := Option.map_eq_some_iff.mp hsess
  refine ⟨tr.take k, tr.drop (k + 1), sess, ip, r, ?_, hsess', hreq, hkey, hhash, hcode⟩
  rw [List.getElem_cons_drop, List.take_append_drop]

theorem singleUse_length : 17 < singleUse.1.length := by decide

/-- The single use creates its one session, and no more are allowed. -/
theorem backupSessions_le_singleUse :
    ∃ es : List (Entry Unit World Op Ans), es.length = 1 ∧
      es.length ≤ (challenged.backupHashes "a@x").count "backup" := by
  have henv : ∀ (_ : Unit) t, sameCode false ≠ .env (.saveTwoFA t) := by
    intro _ t h
    cases h
  have hk := singleUse_length
  refine ⟨[singleUse.1[17]], rfl, ?_⟩
  refine backupSessions_le (run_runFaulty _ _ _ _ _) henv savesApply_singleUse _ _
    (List.singleton_sublist.mpr (List.getElem_mem singleUse_length)) fun e he => ?_
  obtain rfl := List.mem_singleton.mp he
  exact byBackupCode_getElem singleUse_length "a@x" "ip" ⟨"p1", "backup"⟩ rfl
    (by decide +kernel) (by decide +kernel) (by decide +kernel) (by decide +kernel)

/-- Two requests with the same code, their calls taking turns. -/
def racing : List (Entry Bool World Op Ans) × Conf Bool World Op Ans Resp :=
  runFaulty .sample (fun _ => false) (List.replicate 30 [false, true]).flatten sameCode challenged

theorem racing_length : 35 < racing.1.length := by decide

/-- **Two racing requests use one backup code twice**, with no fault at all: both
read the row before either writes it back. -/
theorem backupCode_used_twice :
    Run (sem .sample) (start .sample sameCode challenged) racing.1 racing.2 ∧
      (challenged.backupHashes "a@x").count "backup" = 1 ∧
      ∃ es : List (Entry Bool World Op Ans), es.Sublist racing.1 ∧ es.length = 2 ∧
        ∀ e ∈ es, ByBackupCode .sample sameCode racing.1 "a@x" "backup" e := by
  have h35 := racing_length
  have h34 := Nat.lt_of_succ_lt racing_length
  refine ⟨run_runFaulty _ _ _ _ _, by decide +kernel, [racing.1[34], racing.1[35]], ?_, rfl, ?_⟩
  · have hdrop := List.drop_sublist 34 racing.1
    rw [List.drop_eq_getElem_cons h34, List.drop_eq_getElem_cons h35] at hdrop
    exact (((List.nil_sublist _).cons_cons _).cons_cons _).trans hdrop
  · intro e he
    rcases List.mem_pair.mp he with rfl | rfl
    · exact byBackupCode_getElem (Nat.lt_of_succ_lt racing_length) "a@x" "ip" ⟨"p1", "backup"⟩
        rfl (by decide +kernel) (by decide +kernel) (by decide +kernel)
        (by decide +kernel)
    · exact byBackupCode_getElem racing_length "a@x" "ip" ⟨"p2", "backup"⟩
        rfl (by decide +kernel) (by decide +kernel) (by decide +kernel)
        (by decide +kernel)

end E2Mail.Backend
