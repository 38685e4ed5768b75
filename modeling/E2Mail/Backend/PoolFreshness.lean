import E2Mail.Backend.Connections

/-!
# What a pooled client was dialled with

A pool keeps the settings that the request which opened it had brought, and dials every client
with them. `ChangePassword` destroys the pool of its own session; `UpdateAccount` destroys none,
and neither touches the pools and the account lists of the owner's other sessions.

* `Server.storedConfig` — the settings stored for an account, and `UpToDate`: once an edit of the
  account has been answered, clients are handed out that were dialled with these;
* `ConnOp.opens`, `OpenedWith` — what the pools were opened with, over a whole run;
* `handOut_config` — a client was dialled with what its pool was opened with;
* `upToDate_iff` — the runs in which clients are up to date;
* `freshPools_of_kept` — enough for it: whoever opens a pool brings what is stored, and that is not
  changed while the pool is in use.
-/

namespace E2Mail.Backend

open Lib Imap

/-! ## Settings and edits -/

/-- The settings of the connections to the account, as the row has them. -/
def AccountRow.imapConfig (r : AccountRow) : Option ConnectionConfig :=
  (r.acc.encIMAPPassword.decrypt (.dek r.wrappedWith)).map r.acc.imapConfig

/-- The settings that are stored for an account. -/
def Server.storedConfig (s : Server) (id : String) : Option ConnectionConfig :=
  (s.world.accounts.rows.find? fun r => r.id = id).bind AccountRow.imapConfig

/-- What the pools in the order in which they were opened dial with. -/
def Server.configs (s : Server) : List ConnectionConfig := s.pools.map ManagedPool.config

/-- The settings with which a call opens a pool. -/
def ConnOp.opens (s : Server) : ConnOp → Option ConnectionConfig
  | .lookupPool id aid config => if (s.poolAt id aid).isSome then none else some config
  | _ => none

/-- The client that a call hands out: its account, its pool and its settings. -/
def ConnOp.handedOut : ConnOp → Option (String × Nat × ConnectionConfig)
  | .handOut aid pool dialled => some (aid, pool, dialled)
  | _ => none

/-- The response is a success. -/
def ConnOp.succeeds : ConnOp → Bool
  | .answer (.success _) => true
  | _ => false

/-- `UpdateAccount` or `ChangePassword`. -/
def ConnRequest.edits : ConnRequest → Bool
  | .account _ (.updateAccount _ _) | .account _ (.changePassword _) => true
  | _ => false

/-- The account whose row a call has written. -/
def savedAccountID : Event ConnOp ConnAns → Option String
  | ⟨.world (.updateAccount acc _), .ok _⟩ => some acc.id
  | _ => none

section Statements

variable {ι : Type} [DecidableEq ι] (reqs : ι → ConnRequest)
  (tr : List (Entry ι Server ConnOp ConnAns)) (aid : String)

/-- An `UpdateAccount` or a `ChangePassword` for the account has answered success. -/
def Answered : Prop :=
  ∃ e ∈ tr, (reqs e.who).edits = true ∧ e.op.succeeds = true ∧
    ∃ v ∈ proj e.who tr, savedAccountID v = some aid

instance : Decidable (Answered reqs tr aid) :=
  inferInstanceAs (Decidable (∃ e ∈ tr, _ ∧ _ ∧ ∃ v ∈ proj e.who tr, _))

/-- From then on, every client that is handed out for the account was dialled with the settings
that are stored for it. -/
def UpToDate : Prop :=
  ∀ pre e post, tr = pre ++ e :: post → Answered reqs pre aid →
    ∀ pool dialled, e.op.handedOut = some (aid, pool, dialled) →
      e.pre.storedConfig aid = some dialled

omit [DecidableEq ι] in
/-- A pool was opened with settings: those that the request which opened it brought along. -/
def OpenedWith (pool : Nat) (brought : ConnectionConfig) : Prop :=
  ∃ o ∈ tr, o.op.opens o.pre = some brought ∧ o.pre.pools.length = pool

/-- Clients are handed out for the account only from pools that were opened with the settings that
are stored now. -/
def FreshPools : Prop :=
  ∀ pre e post, tr = pre ++ e :: post → Answered reqs pre aid →
    ∀ pool dialled, e.op.handedOut = some (aid, pool, dialled) →
      ∀ brought, OpenedWith pre pool brought → e.pre.storedConfig aid = some brought

/-- Clients are handed out for the account only from pools whose opener had brought what was
stored, and it has not been changed since then. -/
def KeptPools : Prop :=
  ∀ pre e post, tr = pre ++ e :: post → Answered reqs pre aid →
    ∀ pool dialled, e.op.handedOut = some (aid, pool, dialled) →
      ∀ before o after, pre = before ++ o :: after →
        ∀ brought, o.op.opens o.pre = some brought → o.pre.pools.length = pool →
          o.pre.storedConfig aid = some brought ∧
            ∀ x ∈ o :: after, x.post.storedConfig aid = x.pre.storedConfig aid

/-- Whatever holds at each place of a trace, with what comes before it and what after. -/
theorem forall_split_iff {α : Type} {l : List α} {p : List α → α → List α → Prop} :
    (∀ pre e post, l = pre ++ e :: post → p pre e post) ↔
      ∀ i, (hi : i < l.length) → p (l.take i) l[i] (l.drop (i + 1)) := by
  constructor
  · intro h i hi
    refine h _ _ _ ?_
    rw [List.getElem_cons_drop, List.take_append_drop]
  · rintro h pre e post rfl
    have hi : pre.length < (pre ++ e :: post).length := by simp
    simpa using h pre.length hi

/-- The pool was opened with what was stored, and that has not been changed since then. -/
def KeptSince (pool : Nat) : Prop :=
  ∀ j, (hj : j < tr.length) → ∀ brought ∈ tr[j].op.opens tr[j].pre, tr[j].pre.pools.length = pool →
    tr[j].pre.storedConfig aid = some brought ∧
      ∀ x ∈ tr[j] :: tr.drop (j + 1), x.post.storedConfig aid = x.pre.storedConfig aid

instance (pool : Nat) : Decidable (KeptSince tr aid pool) :=
  inferInstanceAs (Decidable (∀ j, (hj : j < tr.length) → ∀ brought ∈ tr[j].op.opens tr[j].pre, _ → _ ∧ _))

/-- Each hand-out is compared with each opening before it. -/
theorem keptPools_iff : KeptPools reqs tr aid ↔
    ∀ i, (hi : i < tr.length) → Answered reqs (tr.take i) aid →
      ∀ given ∈ tr[i].op.handedOut, given.1 = aid → KeptSince (tr.take i) aid given.2.1 := by
  rw [KeptPools, forall_split_iff]
  refine forall₂_congr fun i hi => imp_congr_right fun _ => ?_
  constructor
  · rintro h ⟨_, pool, dialled⟩ hgiven rfl
    exact forall_split_iff.mp (h pool dialled hgiven)
  · intro h pool dialled hgiven
    exact forall_split_iff.mpr (h _ hgiven rfl)

instance : Decidable (KeptPools reqs tr aid) := decidable_of_iff _ (keptPools_iff reqs tr aid).symm

end Statements

/-! ## The settings of the pools -/

namespace Server

variable {s s' : Server}

theorem configs_map {f : ManagedPool → ManagedPool} (hf : ∀ p, (f p).config = p.config) :
    configs { s with pools := s.pools.map f } = s.configs := by
  rw [configs, List.map_map]
  exact List.map_congr_left fun p _ => hf p

theorem configs_closePools (q : ManagedPool → Bool) : (s.closePools q).configs = s.configs := by
  refine configs_map fun p => ?_
  split <;> rfl

theorem configs_janitor : s.janitor.configs = s.configs := by
  refine configs_map fun p => ?_
  split <;> rfl

theorem configs_poolStep {i : Nat} {a : PoolAction} (hs : s.poolStep i a = some s') :
    s'.configs = s.configs := by
  obtain ⟨p, hp, hrest⟩ := Option.bind_eq_some_iff.mp hs
  obtain ⟨state, -, hs'⟩ := Option.bind_eq_some_iff.mp hrest
  obtain rfl := Option.some.inj hs'
  obtain ⟨hi, rfl⟩ := List.getElem?_eq_some_iff.mp hp
  have hi' : i < (s.pools.map ManagedPool.config).length := by rwa [List.length_map]
  have hself := List.set_getElem_self hi'
  rw [List.getElem_map] at hself
  rw [configs, List.map_set]
  exact hself

theorem configs_lookupPool (id aid : String) (config : ConnectionConfig) :
    (s.lookupPool id aid config).2.configs =
      s.configs ++ ((ConnOp.lookupPool id aid config).opens s).toList := by
  simp only [lookupPool, ConnOp.opens]
  split
  · rename_i hat
    simp [hat]
  · rename_i hat
    simp [hat, configs]

theorem pools_afterWorld (o : Op) (r : Ans o) (w : World) :
    (s.afterWorld o r w).pools = s.pools := by
  cases o with
  | sessionCreate sess dek => cases r <;> rfl
  | _ => rfl

/-- **The settings of a pool** are those it was opened with. -/
theorem configs_step {P : Params} {ttl : Nat} {o : ConnOp} {r : ConnAns o}
    (h : connSem P ttl o s r s') : s'.configs = s.configs ++ (o.opens s).toList := by
  cases o with
  | world o =>
    obtain ⟨w, -, rfl⟩ := h
    rw [configs, pools_afterWorld]
    exact (List.append_nil _).symm
  | await i borrower =>
    obtain ⟨_, -, heq⟩ := Option.map_eq_some_iff.mp h
    obtain ⟨-, rfl⟩ := Prod.mk.inj heq
    exact (List.append_nil _).symm
  | touch id =>
    obtain ⟨-, rfl⟩ := Prod.mk.inj (Option.some.inj h)
    simp only [touch]
    split <;> exact (List.append_nil _).symm
  | lookupPool id aid config =>
    obtain rfl : s' = (s.lookupPool id aid config).2 := congrArg Prod.snd (Option.some.inj h).symm
    exact configs_lookupPool id aid config
  | startListener id aid config =>
    obtain ⟨-, rfl⟩ := Prod.mk.inj (Option.some.inj h)
    simp only [startListener]
    split <;> exact (List.append_nil _).symm
  | acquire i =>
    obtain ⟨p, -, hrest⟩ := Option.bind_eq_some_iff.mp h
    obtain ⟨s₁, hs, heq⟩ := Option.bind_eq_some_iff.mp hrest
    obtain ⟨-, rfl⟩ := Prod.mk.inj (Option.some.inj heq)
    rw [configs_poolStep hs]
    exact (List.append_nil _).symm
  | release i borrower | poolEvent i ev =>
    obtain ⟨s₁, hs, heq⟩ := Option.map_eq_some_iff.mp h
    obtain ⟨-, rfl⟩ := Prod.mk.inj heq
    rw [configs_poolStep hs]
    exact (List.append_nil _).symm
  | destroyPool | destroySessionPools =>
    obtain ⟨-, rfl⟩ := Prod.mk.inj (Option.some.inj h)
    exact (configs_closePools _).trans (List.append_nil _).symm
  | janitor =>
    obtain ⟨-, rfl⟩ := Prod.mk.inj (Option.some.inj h)
    exact configs_janitor.trans (List.append_nil _).symm
  | lookSession | deleteSession | clean | handOut | answer | stopListener | stopSessionListeners =>
    obtain ⟨-, rfl⟩ := Prod.mk.inj (Option.some.inj h)
    exact (List.append_nil _).symm

/-- A client that is there has the settings of its pool. -/
theorem awaited_eq_ok {i borrower : Nat} {dialled : ConnectionConfig}
    (h : s.awaited i borrower = some (.ok dialled)) : s.configs[i]? = some dialled := by
  obtain ⟨p, hp, hrest⟩ := Option.bind_eq_some_iff.mp h
  obtain ⟨b, -, hb⟩ := Option.bind_eq_some_iff.mp hrest
  have hconfig : p.config = dialled := by
    cases b with
    | holding client => exact Except.ok.inj (Option.some.inj hb)
    | failed err => cases hb
    | dialing | waiting | released => cases hb
  rw [configs, List.getElem?_map, hp, Option.map_some, hconfig]

end Server

/-! ## The programs -/

/-- A client is handed out after an `Acquire` at its pool has ended with it. -/
def HandOutRule (h : List (Event ConnOp ConnAns)) (o : ConnOp) : Prop :=
  ∀ aid pool dialled, o.handedOut = some (aid, pool, dialled) →
    ∃ borrower, ⟨.await pool borrower, .ok dialled⟩ ∈ h

theorem HandOutRule.of_none {h : List (Event ConnOp ConnAns)} {o : ConnOp}
    (ho : o.handedOut = none) : HandOutRule h o := by
  intro aid pool dialled heq
  rw [ho] at heq
  cases heq

/-- A program that hands out no client. -/
theorem along_of_only {q : Serving Resp} {h : List (Event ConnOp ConnAns)}
    (hq : q.Only fun o => o.handedOut = none) : Along HandOutRule (fun _ _ => True) q h :=
  Along.of_only hq trivial (fun _ _ _ _ _ => trivial) fun _ _ ho _ => .of_none ho

theorem only_startIdleForAccounts (sess : Session) (accounts : List Account) :
    (startIdleForAccounts sess accounts).Only fun o => o.handedOut = none := by
  induction accounts with
  | nil => trivial
  | cons acc accounts ih =>
    rw [startIdleForAccounts]
    split
    · exact ih
    · exact Prog.Only.step rfl fun _ => ih

theorem only_connectionLines (sessionID : String) (newPassword : Option String)
    (saved : Option Account) (o : Op) (r : Ans o) :
    (connectionLines sessionID newPassword saved o r).Only fun o => o.handedOut = none := by
  cases o with
  | sessionCreate sess dek =>
    cases r with
    | error e => trivial
    | ok made => exact only_startIdleForAccounts made made.accounts
  | deleteAccount owner id =>
    cases r with
    | error e => trivial
    | ok _ => exact ⟨rfl, fun _ => ⟨rfl, fun _ => trivial⟩⟩
  | setSessionAccounts id accounts =>
    cases newPassword with
    | none => trivial
    | some password =>
      cases saved with
      | none => trivial
      | some acc => exact ⟨rfl, fun _ => ⟨rfl, fun _ => ⟨rfl, fun _ => trivial⟩⟩⟩
  | _ => trivial

theorem only_connected (sessionID : String) (newPassword : Option String) (saved : Option Account)
    (q : Handler Resp) :
    (connected sessionID newPassword saved q).Only fun o => o.handedOut = none := by
  induction q generalizing saved with
  | ret resp => exact ⟨rfl, fun _ => trivial⟩
  | call o k ih =>
    exact Prog.Only.step rfl fun r =>
      (only_connectionLines sessionID newPassword saved o r).bind fun _ => ih r _

theorem only_startListeners (ctx : MailContext) (accounts : List Account) :
    (startListeners ctx accounts).Only fun o => o.handedOut = none := by
  induction accounts with
  | nil => trivial
  | cons acc accounts ih => exact Prog.Only.step rfl fun _ => ih

/-- What holds along the request of every session holds along it behind `Auth`. -/
theorem along_withSession (token : String) {serve : MailContext → Serving Resp}
    (hserve : ∀ ctx h, Along HandOutRule (fun _ _ => True) (serve ctx) h) :
    Along HandOutRule (fun _ _ => True) (withSession token serve) [] := by
  refine ⟨.of_none rfl, fun r => ?_⟩
  rcases r with _ | ⟨sess, expired⟩
  · exact ⟨.of_none rfl, fun _ => trivial⟩
  · cases expired with
    | true => exact ⟨.of_none rfl, fun _ => ⟨.of_none rfl, fun _ => trivial⟩⟩
    | false => exact ⟨.of_none rfl, fun _ => ⟨.of_none rfl, fun _ => hserve _ _⟩⟩

theorem along_mail (r : RoutedRequest) (failed done : Resp) (ctx : MailContext)
    (h : List (Event ConnOp ConnAns)) :
    Along HandOutRule (fun _ _ => True) (mail r failed done ctx) h := by
  refine Along.step (.of_none rfl) fun accounts => ?_
  split
  · refine Along.step (.of_none rfl) fun pool => Along.step (.of_none rfl) fun borrower => ?_
    refine Along.step (.of_none rfl) fun client => ?_
    cases client with
    | error err => exact ⟨.of_none rfl, fun _ => trivial⟩
    | ok dialled =>
      refine Along.step ?_ fun _ => ⟨.of_none rfl, fun _ => ⟨.of_none rfl, fun _ => trivial⟩⟩
      rintro aid pool' dialled' ⟨⟩
      exact ⟨borrower, by simp⟩
  · exact ⟨.of_none rfl, fun _ => trivial⟩

/-- **The requests.** -/
theorem along_request (P : Params) (req : ConnRequest) :
    Along HandOutRule (fun _ _ => True) (req.prog P) [] := by
  cases req with
  | mail token r failed done =>
    exact along_withSession token fun ctx h => along_mail r failed done ctx h
  | sse token =>
    refine along_withSession token fun ctx h => along_of_only ?_
    exact Prog.Only.step rfl fun accounts =>
      (only_startListeners ctx accounts).bind fun _ => ⟨rfl, fun _ => trivial⟩
  | logout token =>
    refine along_withSession token fun ctx h => along_of_only ?_
    exact ⟨rfl, fun _ => ⟨rfl, fun _ => ⟨rfl, fun _ => ⟨rfl, fun _ => trivial⟩⟩⟩⟩
  | account token kind =>
    exact along_withSession token fun ctx h => along_of_only (only_connected _ _ _ _)
  | anyone kind => exact along_of_only (only_connected _ _ _ _)
  | cleaner | janitor | atPool => exact along_of_only ⟨rfl, fun _ => trivial⟩

/-! ## Runs -/

section Runs

variable {ι : Type} [DecidableEq ι] {P : Params} {ttl : Nat} {reqs : ι → ConnRequest} {w : World}
  {live : String → Bool} {lastActive : String → Nat}
  {tr pre post : List (Entry ι Server ConnOp ConnAns)} {e : Entry ι Server ConnOp ConnAns}
  {c : Conf ι Server ConnOp ConnAns Resp}

omit [DecidableEq ι] in
theorem openedWith_snoc {pool : Nat} {brought : ConnectionConfig} :
    OpenedWith (tr ++ [e]) pool brought ↔
      OpenedWith tr pool brought ∨
        e.op.opens e.pre = some brought ∧ e.pre.pools.length = pool := by
  simp only [OpenedWith, List.mem_append, List.mem_singleton]
  constructor
  · rintro ⟨o, ho | rfl, hopens⟩
    · exact .inl ⟨o, ho, hopens⟩
    · exact .inr hopens
  · rintro (⟨o, ho, hopens⟩ | hopens)
    · exact ⟨o, .inl ho, hopens⟩
    · exact ⟨e, .inr rfl, hopens⟩

omit [DecidableEq ι] in
theorem OpenedWith.mono {tr' : List (Entry ι Server ConnOp ConnAns)} {pool : Nat}
    {brought : ConnectionConfig} (h : OpenedWith tr pool brought) (hsub : tr ⊆ tr') :
    OpenedWith tr' pool brought := by
  obtain ⟨o, ho, hopens⟩ := h
  exact ⟨o, hsub ho, hopens⟩

/-- What a pool dials with is what it was opened with. -/
theorem openedWith_iff (h : Run (connSem P ttl) (startServer P reqs w live lastActive) tr c)
    (pool : Nat) (brought : ConnectionConfig) :
    OpenedWith tr pool brought ↔ c.state.configs[pool]? = some brought := by
  refine Run.invariant (I := fun tr s => OpenedWith tr pool brought ↔
    s.configs[pool]? = some brought) ?_ ?_ h
  · simp [OpenedWith, startServer, Server.configs]
  · intro tr c e _ _ _ hs ih
    rw [openedWith_snoc, ih, Server.configs_step hs]
    have hlength : e.pre.configs.length = e.pre.pools.length := List.length_map _
    cases hopens : e.op.opens e.pre with
    | none => simp
    | some config =>
      rw [Option.toList_some, ← hlength]
      rcases Nat.lt_trichotomy pool e.pre.configs.length with hlt | rfl | hgt
      · rw [List.getElem?_append_left hlt]
        exact or_iff_left fun hnew => absurd hnew.2 (by omega)
      · simp
      · rw [List.getElem?_eq_none (by omega), List.getElem?_eq_none (by simp; omega)]
        simp
        omega

/-- **A client that is handed out** was dialled with what its pool was opened with. -/
theorem handOut_config (h : Run (connSem P ttl) (startServer P reqs w live lastActive) tr c)
    (htr : tr = pre ++ e :: post) {aid : String} {pool : Nat} {dialled : ConnectionConfig}
    (hop : e.op.handedOut = some (aid, pool, dialled)) (brought : ConnectionConfig) :
    OpenedWith pre pool brought ↔ brought = dialled := by
  obtain ⟨c₁, hpre, -, ⟨k, hk⟩, -⟩ := h.cut htr
  have hrule : HandOutRule (proj e.who pre) e.op :=
    hpre.along (P := fun _ => HandOutRule) (Q := fun _ _ _ => True)
      (fun i => along_request P (reqs i)) hk
  -- its own `Acquire`, at an earlier point
  obtain ⟨borrower, hmem⟩ := hrule aid pool dialled hop
  obtain ⟨a, ha, -, hevent⟩ := mem_proj.mp hmem
  obtain ⟨before, after, rfl⟩ := List.append_of_mem ha
  obtain ⟨c₂, hbefore, hstate, -, hsem⟩ := hpre.cut rfl
  have hconfig : a.pre.configs[pool]? = some dialled := by
    obtain ⟨who, op, ans, prior, next⟩ := a
    cases hevent
    obtain ⟨r, hr, heq⟩ := Option.map_eq_some_iff.mp hsem
    obtain ⟨rfl, -⟩ := Prod.mk.inj heq
    exact Server.awaited_eq_ok hr
  rw [← hstate, ← openedWith_iff hbefore] at hconfig
  have hthen := (openedWith_iff hpre _ _).mp (hconfig.mono (List.subset_append_left _ _))
  rw [openedWith_iff hpre, hthen, Option.some.injEq, eq_comm]

/-- If what is stored is brought along by whoever opens a pool, and is not changed while the pool
is in use, clients come from fresh pools. -/
theorem freshPools_of_kept
    (h : Run (connSem P ttl) (startServer P reqs w live lastActive) tr c) {aid : String}
    (hkept : KeptPools reqs tr aid) : FreshPools reqs tr aid := by
  intro pre e post htr hanswered pool dialled hop brought hopened
  obtain ⟨o, ho, hopens, hpool⟩ := hopened
  obtain ⟨before, after, hpre⟩ := List.append_of_mem ho
  obtain ⟨hbrought, hsame⟩ :=
    hkept pre e post htr hanswered pool dialled hop before o after hpre brought hopens hpool
  obtain ⟨c₁, hrun, hstate, -⟩ := h.cut htr
  have hlast := hrun.last (f := fun s => s.storedConfig aid) hpre
    fun x hx => hsame x (List.mem_cons_of_mem _ hx)
  rw [← hstate, hlast, hsame o List.mem_cons_self, hbrought]

/-- **Clients and settings.** Clients are up to date in exactly the runs in which they come from
pools that were opened with what is stored; they are if every opener had brought what was stored
and it was not changed while the pool was in use. -/
theorem upToDate_iff (h : Run (connSem P ttl) (startServer P reqs w live lastActive) tr c)
    (aid : String) :
    (UpToDate reqs tr aid ↔ FreshPools reqs tr aid) ∧
      (KeptPools reqs tr aid → UpToDate reqs tr aid) := by
  have hiff : UpToDate reqs tr aid ↔ FreshPools reqs tr aid := by
    constructor
    · intro hup pre e post htr hanswered pool dialled hop brought hopened
      rw [(handOut_config h htr hop brought).mp hopened]
      exact hup pre e post htr hanswered pool dialled hop
    · intro hfresh pre e post htr hanswered pool dialled hop
      exact hfresh pre e post htr hanswered pool dialled hop dialled
        ((handOut_config h htr hop dialled).mpr rfl)
  exact ⟨hiff, fun hkept => hiff.mpr (freshPools_of_kept h hkept)⟩

end Runs

/-! ## An edit before and while a pool is open -/

/-- The owner `ann` with a session that lists her account. -/
def annsHost : World :=
  let acc := { annsAccount "u" "ann" with imapHost := "old-host", imapPort := 993 }
  { annsWorld with
    accounts := ⟨[⟨"ann", 1, acc⟩], by decide⟩
    sessions := fun id => if id = "s" then some ⟨"s", "ann", "ann", [acc], 1⟩ else none }

/-- A request for the folders of the account `u`. -/
def folders : RoutedRequest := { endpoint := .mail, account := "u" }

/-- An edit of the account; the folders, over a connection that is dialled then; the folders again. -/
def settlingHost (i : Fin 4) : ConnRequest :=
  match i with
  | 0 => .account "s" (.updateAccount "u" (.ok { imapHost := "new-host", imapUseTLS := true }))
  | 1 | 3 => .mail "s" folders (internalServerError "imap") (.success (.done "folders"))
  | 2 => .atPool 0 (.dialOk 0)

/-- The four in turn; the dial ends while the second waits for it. -/
def settledHost : List (Entry (Fin 4) Server ConnOp ConnAns) ×
    Conf (Fin 4) Server ConnOp ConnAns Resp :=
  runServer .sample 60
    (List.replicate 8 0 ++ List.replicate 6 1 ++ [2] ++ List.replicate 4 1 ++ List.replicate 10 3)
    settlingHost annsHost (fun id => id = "s") fun _ => 0

/-- Clients of the new host are handed out after the edit was answered, from a pool that was opened
with what is stored. -/
theorem upToDate_iff_settledHost :
    Run (connSem .sample 60)
      (startServer .sample settlingHost annsHost (fun id => id = "s") fun _ => 0)
      settledHost.1 settledHost.2 ∧
      (Answered settlingHost (settledHost.1.take 8) "u" ∧
        ∃ e ∈ settledHost.1.drop 8, e.op.handedOut =
          some ("u", 0, ⟨"new-host", 993, true, false, "ann", "old-password"⟩)) ∧
      KeptPools settlingHost settledHost.1 "u" ∧ UpToDate settlingHost settledHost.1 "u" := by
  have hrun := run_runServer Params.sample 60 (List.replicate 8 0 ++ List.replicate 6 1 ++ [2] ++
    List.replicate 4 1 ++ List.replicate 10 3) settlingHost annsHost (fun id => id = "s") fun _ => 0
  have hkept : KeptPools settlingHost settledHost.1 "u" := by decide +kernel
  exact ⟨hrun, by decide +kernel, hkept, (upToDate_iff hrun "u").2 hkept⟩

/-- The folders, over a connection that is dialled then; an edit of the account; the folders. -/
def movingHost (i : Fin 4) : ConnRequest :=
  match i with
  | 0 | 3 => .mail "s" folders (internalServerError "imap") (.success (.done "folders"))
  | 1 => .atPool 0 (.dialOk 0)
  | 2 => .account "s" (.updateAccount "u" (.ok { imapHost := "new-host", imapUseTLS := true }))

/-- The four in turn; the dial ends while the first waits for it. -/
def movedHost : List (Entry (Fin 4) Server ConnOp ConnAns) ×
    Conf (Fin 4) Server ConnOp ConnAns Resp :=
  runServer .sample 60
    (List.replicate 6 0 ++ [1] ++ List.replicate 4 0 ++ List.replicate 8 2 ++ List.replicate 10 3)
    movingHost annsHost (fun id => id = "s") fun _ => 0

theorem length_movedHost : 26 < movedHost.1.length := by decide +kernel

/-- The last request gets its client. -/
def lastServed : Entry (Fin 4) Server ConnOp ConnAns := movedHost.1.get ⟨26, length_movedHost⟩

/-- **A client of the old host** is handed out after the edit was answered: `UpdateAccount` leaves
the pool open. -/
theorem outdated_movedHost :
    Run (connSem .sample 60)
      (startServer .sample movingHost annsHost (fun id => id = "s") fun _ => 0)
      movedHost.1 movedHost.2 ∧ ¬UpToDate movingHost movedHost.1 "u" := by
  have hanswered : Answered movingHost (movedHost.1.take 26) "u" := by decide +kernel
  have hop : lastServed.op.handedOut =
      some ("u", 0, ⟨"old-host", 993, true, false, "ann", "old-password"⟩) := by decide +kernel
  have hstored : lastServed.pre.storedConfig "u" =
      some ⟨"new-host", 993, true, false, "ann", "old-password"⟩ := by decide +kernel
  refine ⟨run_runServer _ _ _ _ _ _ _, fun hup => ?_⟩
  have hcut : movedHost.1 = movedHost.1.take 26 ++ lastServed :: movedHost.1.drop 27 := by
    rw [lastServed, List.get_eq_getElem, List.getElem_cons_drop, List.take_append_drop]
  have hdialled := hup _ _ _ hcut hanswered 0 _ hop
  rw [hstored] at hdialled
  exact absurd hdialled (by decide)

end E2Mail.Backend
