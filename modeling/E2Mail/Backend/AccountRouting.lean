import E2Mail.Backend.SessionLists
import E2Mail.Backend.PasswordAtomic

/-!
# Which account a request acts on

A mail, folder or Sieve request may name the account it is about, in the query, in a
header or, for the folders of an account, in the path. The handlers leave it to
`GetCurrentAccount` to pick the account from the session's list.

* `RoutedRequest` — a request and the names in it;
* `getCurrentAccount`, `acquireClient`, `acquireSieveClient` — from a request to an account
  and to the connection it is served over;
* `serve` — the connections that a handler opens for a request;
* `Misrouted` — the three kinds of requests that go astray;
* `serve_iff` — all others are carried out on the account they name, or fail.
-/

namespace E2Mail.Backend

open Lib

/-! ## Requests and contexts -/

/-- The handlers, by how they come to a connection. -/
inductive Endpoint where
  /-- under `/mail`: those that begin with `acquireClient` -/
  | mail
  /-- `GET /accounts/{id}/folders` -/
  | accountFolders (id : String)
  /-- `POST /mail/drafts` -/
  | saveDraft
  /-- `POST /mail/send` -/
  | sendMessage
  /-- under `/sieve` -/
  | sieve
  deriving DecidableEq

/-- A request that acts on an account. -/
structure RoutedRequest where
  endpoint : Endpoint
  /-- `r.URL.Query().Get("account")`, empty if it is not there -/
  account : String := ""
  /-- `r.Header.Get("X-Account")`, empty if it is not there -/
  xAccount : String := ""
  /-- the answer to a body or parameters that the handler does not take -/
  refused : Option Resp := none

/-- The request names an account, in one of the three ways. -/
def RoutedRequest.Names (r : RoutedRequest) (name : String) : Prop :=
  (r.account = name ∧ name ≠ "") ∨ (r.xAccount = name ∧ name ≠ "") ∨
    r.endpoint = .accountFolders name

/-- `AuthContext`, with the passwords of the session's accounts. -/
structure MailContext where
  session : Session
  /-- `Passwords`, empty for an account that is not there -/
  passwords : String → String

/-- The passwords that `Auth` decrypts. -/
def passwordsOf (dek : Nat) (accounts : List Account) : String → String :=
  accounts.foldl
    (fun passwords acc =>
      match acc.encIMAPPassword.decrypt (.dek dek) with
      | none => passwords
      | some pass => Function.update passwords acc.id pass)
    fun _ => ""

/-- The context that `Auth` makes of a session. -/
def authContext (s : Session) : MailContext := ⟨s, passwordsOf s.dek s.accounts⟩

/-! ## The account -/

/-- `resolveAccountID`. -/
def resolveAccountID (r : RoutedRequest) (sess : Session) : String :=
  if r.account ≠ "" then r.account
  else if r.xAccount ≠ "" then r.xAccount
  else
    match sess.accounts.find? (·.isDefault) with
    | some acc => acc.id
    | none =>
      match sess.accounts with
      | [] => ""
      | acc :: _ => acc.id

/-- `GetCurrentAccount`. -/
def getCurrentAccount (ctx? : Option MailContext) (r : RoutedRequest) :
    Option (MailContext × Account) := do
  let ctx ← ctx?
  match ctx.session.accounts.find? fun acc => acc.id = resolveAccountID r ctx.session with
  | some selected => return (ctx, selected)
  | none =>
    -- falls back to the default
    let selected ← ctx.session.accounts.find? (·.isDefault)
    return (ctx, selected)

/-- `GetCurrentAccountPassword`. -/
def getCurrentAccountPassword (ctx : MailContext) (acc : Account) : String := ctx.passwords acc.id

/-! ## Connections -/

/-- `smtp.SMTPConfig`. -/
structure SMTPConfig where
  host : String
  port : Int
  useTLS : Bool
  allowInsecureTLS : Bool
  username : String
  password : String

/-- `sieve.Config`. -/
structure SieveConfig where
  host : String
  port : Int
  useTLS : Bool
  allowInsecureTLS : Bool
  username : String
  password : String
  debug : Bool

/-- The part of `config.ServerConfig` that is about Sieve. -/
structure ServerConfig where
  defaultSieveHost : String
  defaultSievePort : Int
  defaultSieveUseTLS : Bool
  defaultSieveAllowInsecureTLS : Bool
  sieveDebug : Bool

/-- A connection to a server of an account. -/
inductive Connection where
  /-- from the pool of a session and an account -/
  | imap (account : Account) (sessionID accountID : String) (config : ConnectionConfig)
  | smtp (account : Account) (config : SMTPConfig)
  | sieve (account : Account) (config : SieveConfig)

/-- The account that is acted on. -/
def Connection.account : Connection → Account
  | imap acc _ _ _ | smtp acc _ | sieve acc _ => acc

/-- The connection that `acquireClient` takes from the pool. -/
def imapConnection (ctx : MailContext) (acc : Account) (password : String) : Connection :=
  .imap acc ctx.session.id acc.id
    { host := acc.imapHost
      port := acc.imapPort
      useTLS := acc.imapUseTLS
      allowInsecureTLS := acc.imapAllowInsecureTLS
      username := acc.username
      password := password }

/-- `acquireClient`, up to the dial. -/
def acquireClient (ctx? : Option MailContext) (r : RoutedRequest) : Except String Connection :=
  match getCurrentAccount ctx? r with
  | none => .error "no account available"
  | some (ctx, acc) =>
    let password := getCurrentAccountPassword ctx acc
    if password = "" then .error "failed to decrypt account password"
    else .ok (imapConnection ctx acc password)

/-- `resolveSieveConfig`. -/
def resolveSieveConfig (cfg? : Option ServerConfig) (acc : Account) : SieveConfig :=
  let host := trimSpace acc.sieveHost
  let host :=
    if host ≠ "" then host
    else
      match cfg? with
      | some cfg => if cfg.defaultSieveHost ≠ "" then cfg.defaultSieveHost else acc.imapHost
      | none => acc.imapHost
  let port :=
    if acc.sievePort ≠ 0 then acc.sievePort
    else
      match cfg? with
      | some cfg => if cfg.defaultSievePort ≠ 0 then cfg.defaultSievePort else 4190
      | none => 4190
  let tls : Bool × Bool :=
    match cfg? with
    | some cfg =>
      if acc.sieveHost = "" ∧ acc.sievePort = 0 then
        (cfg.defaultSieveUseTLS || acc.sieveUseTLS,
          cfg.defaultSieveAllowInsecureTLS || acc.imapAllowInsecureTLS)
      else (acc.sieveUseTLS, acc.sieveAllowInsecureTLS)
    | none => (acc.sieveUseTLS, acc.sieveAllowInsecureTLS)
  { host := host
    port := port
    useTLS := tls.1
    allowInsecureTLS := tls.2
    username := acc.username
    password := ""
    debug := (cfg?.map ServerConfig.sieveDebug).getD false }

/-- `acquireSieveClient`, up to the dial. -/
def acquireSieveClient (cfg? : Option ServerConfig) (ctx? : Option MailContext)
    (r : RoutedRequest) : Except String Connection :=
  match getCurrentAccount ctx? r with
  | none => .error "no account available"
  | some (ctx, acc) =>
    let password := getCurrentAccountPassword ctx acc
    if password = "" then .error "failed to decrypt account password"
    else
      let cfg := resolveSieveConfig cfg? acc
      .ok (.sieve acc { cfg with
        password := password
        username := if cfg.username = "" then acc.email else cfg.username })

/-- The connection that `SendMessage` sends over. -/
def smtpConnection (ctx : MailContext) (acc : Account) : Connection :=
  .smtp acc
    { host := acc.smtpHost
      port := acc.smtpPort
      useTLS := acc.smtpUseTLS
      allowInsecureTLS := acc.smtpAllowInsecureTLS
      username := acc.username
      password := getCurrentAccountPassword ctx acc }

/-- What the handlers answer where `acquireClient` fails. -/
def noConnection (message : String) : Resp :=
  internalServerError ("failed to get IMAP connection: " ++ message)

/-- A handler, up to the connections that it works on; an error is an answer without any. -/
def serve (cfg? : Option ServerConfig) (ctx? : Option MailContext) (r : RoutedRequest) :
    Except Resp (List Connection) :=
  match r.endpoint with
  | .mail | .accountFolders _ =>
    match r.refused with
    | some resp => .error resp
    | none =>
      match acquireClient ctx? r with
      | .error e => .error (noConnection e)
      | .ok conn => .ok [conn]
  | .saveDraft =>
    match getCurrentAccount ctx? r with
    | none => .error (badRequest "no account selected")
    | some _ =>
      match r.refused with
      | some resp => .error resp
      | none =>
        match acquireClient ctx? r with
        | .error e => .error (noConnection e)
        | .ok conn => .ok [conn]
  | .sendMessage =>
    match getCurrentAccount ctx? r with
    | none => .error (badRequest "no account selected")
    | some (ctx, acc) =>
      match r.refused with
      | some resp => .error resp
      | none =>
        -- the message is sent, and a copy goes to the Sent folder
        .ok [smtpConnection ctx acc, imapConnection ctx acc (getCurrentAccountPassword ctx acc)]
  | .sieve =>
    match r.refused with
    | some resp => .error resp
    | none =>
      match acquireSieveClient cfg? ctx? r with
      | .error e => .error (internalServerError ("sieve unavailable: " ++ e))
      | .ok conn => .ok [conn]

/-! ## Requests that go astray -/

/-- The id that a request is taken to name: the query goes before the header. -/
def RoutedRequest.goesBy (r : RoutedRequest) : Option String :=
  if r.account ≠ "" then some r.account
  else if r.xAccount ≠ "" then some r.xAccount
  else none

/-- The request can be carried out on the account. -/
def RoutedRequest.CanUse (r : RoutedRequest) (ctx : MailContext) (acc : Account) : Prop :=
  r.refused = none ∧ (r.endpoint = .sendMessage ∨ ctx.passwords acc.id ≠ "")

/-- The requests that are carried out on another account than one they name. -/
inductive Misrouted (ctx : MailContext) (r : RoutedRequest) : Prop where
  /-- the session does not know the id, and has a default account -/
  | unknown {name : String} {acc : Account} (hname : r.goesBy = some name)
      (hunknown : ∀ a ∈ ctx.session.accounts, a.id ≠ name)
      (hdefault : ctx.session.accounts.find? (·.isDefault) = some acc) (huse : r.CanUse ctx acc)
  /-- the session knows the id, and the request names another one as well -/
  | passedOver {name : String} {acc : Account} (hacc : acc ∈ ctx.session.accounts)
      (hgoes : r.goesBy = some acc.id) (hname : r.Names name) (hne : acc.id ≠ name)
      (huse : r.CanUse ctx acc)
  /-- there is an id in the path only, and it is not that of the default account, or of the
  first one if none is the default -/
  | ignored {name : String} {acc : Account} (hgoes : r.goesBy = none)
      (hname : r.endpoint = .accountFolders name)
      (hacc : ctx.session.accounts.find? (·.isDefault) = some acc ∨
        ctx.session.accounts.find? (·.isDefault) = none ∧ ctx.session.accounts.head? = some acc)
      (hne : acc.id ≠ name) (huse : r.CanUse ctx acc)

/-- A request acts on the account of that name of the session's owner, or fails. -/
def ActsOn (cfg? : Option ServerConfig) (ctx : MailContext) (r : RoutedRequest) (name : String) :
    Prop :=
  ∀ conns, serve cfg? (some ctx) r = .ok conns → ∀ conn ∈ conns,
    conn.account.id = name ∧ conn.account ∈ ctx.session.accounts ∧
      conn.account.userEmail = ctx.session.email

section Routing

variable {ctx : MailContext} {r : RoutedRequest} {acc : Account}

theorem getCurrentAccount_of_find (h : ctx.session.accounts.find?
    (fun a => a.id = resolveAccountID r ctx.session) = some acc) :
    getCurrentAccount (some ctx) r = some (ctx, acc) := by
  simp [getCurrentAccount, h]

theorem getCurrentAccount_of_find_none (h : ctx.session.accounts.find?
    (fun a => a.id = resolveAccountID r ctx.session) = none) :
    getCurrentAccount (some ctx) r =
      (ctx.session.accounts.find? (·.isDefault)).map fun acc => (ctx, acc) := by
  cases hd : ctx.session.accounts.find? (·.isDefault) <;> simp [getCurrentAccount, h, hd]

theorem resolveAccountID_of_goesBy {name : String} {sess : Session} (h : r.goesBy = some name) :
    resolveAccountID r sess = name := by
  rw [RoutedRequest.goesBy] at h
  rw [resolveAccountID]
  by_cases hq : r.account ≠ ""
  · rw [if_pos hq] at h ⊢
    exact Option.some.inj h
  · rw [if_neg hq] at h ⊢
    by_cases hx : r.xAccount ≠ ""
    · rw [if_pos hx] at h ⊢
      exact Option.some.inj h
    · rw [if_neg hx] at h
      cases h

/-- Where the request goes by no id, the default account is resolved, or else the first. -/
theorem resolveAccountID_of_none {sess : Session} (h : r.goesBy = none)
    (hacc : sess.accounts.find? (·.isDefault) = some acc ∨
      sess.accounts.find? (·.isDefault) = none ∧ sess.accounts.head? = some acc) :
    resolveAccountID r sess = acc.id := by
  have hempty : r.account = "" ∧ r.xAccount = "" := by
    rw [RoutedRequest.goesBy] at h
    split at h
    · cases h
    · next hq =>
      split at h
      · cases h
      · next hx => exact ⟨not_not.mp hq, not_not.mp hx⟩
  rw [resolveAccountID, if_neg (not_not.mpr hempty.1), if_neg (not_not.mpr hempty.2)]
  rcases hacc with hdef | ⟨hdef, hhead⟩
  · rw [hdef]
  · rw [hdef]
    cases hl : sess.accounts with
    | nil =>
      rw [hl] at hhead
      cases hhead
    | cons a rest =>
      rw [hl] at hhead
      rw [Option.some.inj hhead]

/-- An account with the id that is resolved is picked. -/
theorem exists_getCurrentAccount (hacc : acc ∈ ctx.session.accounts)
    (hid : resolveAccountID r ctx.session = acc.id) :
    ∃ a, getCurrentAccount (some ctx) r = some (ctx, a) ∧ a.id = acc.id := by
  have hsome : (ctx.session.accounts.find?
      fun a => a.id = resolveAccountID r ctx.session).isSome = true := by
    rw [List.find?_isSome]
    exact ⟨acc, hacc, by simp [hid]⟩
  obtain ⟨a, ha⟩ := Option.isSome_iff_exists.mp hsome
  refine ⟨a, getCurrentAccount_of_find ha, ?_⟩
  rw [← hid]
  simpa using List.find?_some ha

theorem ctx_of_getCurrentAccount {ctx' : MailContext}
    (h : getCurrentAccount (some ctx) r = some (ctx', acc)) : ctx' = ctx := by
  cases hf : ctx.session.accounts.find? fun a => a.id = resolveAccountID r ctx.session with
  | some a =>
    rw [getCurrentAccount_of_find hf] at h
    cases h
    rfl
  | none =>
    rw [getCurrentAccount_of_find_none hf] at h
    obtain ⟨a, -, heq⟩ := Option.map_eq_some_iff.mp h
    cases heq
    rfl

theorem mem_of_getCurrentAccount (h : getCurrentAccount (some ctx) r = some (ctx, acc)) :
    acc ∈ ctx.session.accounts := by
  cases hf : ctx.session.accounts.find? fun a => a.id = resolveAccountID r ctx.session with
  | some a =>
    rw [getCurrentAccount_of_find hf] at h
    cases h
    exact List.mem_of_find?_eq_some hf
  | none =>
    rw [getCurrentAccount_of_find_none hf] at h
    obtain ⟨a, ha, heq⟩ := Option.map_eq_some_iff.mp h
    cases heq
    exact List.mem_of_find?_eq_some ha

theorem acquireClient_eq (hpick : getCurrentAccount (some ctx) r = some (ctx, acc)) :
    acquireClient (some ctx) r =
      if ctx.passwords acc.id = "" then .error "failed to decrypt account password"
      else .ok (imapConnection ctx acc (ctx.passwords acc.id)) := by
  rw [acquireClient, hpick]
  rfl

/-- **What a handler does**: it serves the request on the account that is picked, where it can
be used. -/
theorem serve_eq_ok (cfg? : Option ServerConfig)
    (hpick : getCurrentAccount (some ctx) r = some (ctx, acc)) :
    (r.CanUse ctx acc → ∃ conn conns, serve cfg? (some ctx) r = .ok (conn :: conns)) ∧
    ∀ conns, serve cfg? (some ctx) r = .ok conns →
      r.CanUse ctx acc ∧ ∀ conn ∈ conns, conn.account = acc := by
  have hcan : r.CanUse ctx acc ↔
      r.refused = none ∧ (r.endpoint = .sendMessage ∨ ctx.passwords acc.id ≠ "") := Iff.rfl
  rw [hcan]
  cases hend : r.endpoint <;> cases hrefused : r.refused <;>
    simp only [serve, hend, hrefused, hpick, acquireClient_eq hpick, acquireSieveClient,
      getCurrentAccountPassword]
  all_goals by_cases hpass : ctx.passwords acc.id = ""
  all_goals simp [hpass, Connection.account, imapConnection, smtpConnection]

/-- Nothing is served where no account is picked. -/
theorem not_serve_of_none (cfg? : Option ServerConfig)
    (hpick : getCurrentAccount (some ctx) r = none) (conns : List Connection) :
    serve cfg? (some ctx) r ≠ .ok conns := by
  cases hend : r.endpoint <;> cases hrefused : r.refused <;>
    simp [serve, hend, hrefused, hpick, acquireClient, acquireSieveClient]

theorem goesBy_eq_none : r.goesBy = none ↔ r.account = "" ∧ r.xAccount = "" := by
  rw [RoutedRequest.goesBy]
  by_cases hq : r.account = ""
  · by_cases hx : r.xAccount = "" <;> simp [hq, hx]
  · simp [hq]

/-- The id that the request is taken to name is one it names. -/
theorem names_of_goesBy {name : String} (h : r.goesBy = some name) : r.Names name := by
  rw [RoutedRequest.goesBy] at h
  by_cases hq : r.account = ""
  · by_cases hx : r.xAccount = ""
    · simp [hq, hx] at h
    · rw [if_neg (not_not.mpr hq), if_pos hx] at h
      cases h
      exact .inr (.inl ⟨rfl, hx⟩)
  · rw [if_pos hq] at h
    cases h
    exact .inl ⟨rfl, hq⟩

/-- A request that goes astray acts on an account that it does not name. -/
theorem Misrouted.acts (h : Misrouted ctx r) (cfg? : Option ServerConfig) :
    ∃ name, r.Names name ∧ ¬ActsOn cfg? ctx r name := by
  have hwrong : ∀ {name : String} {a acc : Account}, r.CanUse ctx acc → acc.id ≠ name →
      getCurrentAccount (some ctx) r = some (ctx, a) → a.id = acc.id → ¬ActsOn cfg? ctx r name := by
    intro name a acc huse hne hpick hid hacts
    rw [RoutedRequest.CanUse, ← hid] at huse
    obtain ⟨conn, conns, hok⟩ := (serve_eq_ok cfg? hpick).1 huse
    obtain ⟨hconn, -⟩ := hacts _ hok conn List.mem_cons_self
    rw [((serve_eq_ok cfg? hpick).2 _ hok).2 conn List.mem_cons_self, hid] at hconn
    exact hne hconn
  cases h with
  | @unknown name acc hname hunknown hdefault huse =>
    refine ⟨name, names_of_goesBy hname, ?_⟩
    have hnone : ctx.session.accounts.find?
        (fun a => a.id = resolveAccountID r ctx.session) = none := by
      rw [resolveAccountID_of_goesBy hname, List.find?_eq_none]
      exact fun a ha => by simpa using hunknown a ha
    have hpick := getCurrentAccount_of_find_none hnone
    rw [hdefault] at hpick
    exact hwrong huse (hunknown acc (List.mem_of_find?_eq_some hdefault)) hpick rfl
  | @passedOver name acc hacc hgoes hname hne huse =>
    obtain ⟨a, hpick, hid⟩ := exists_getCurrentAccount hacc (resolveAccountID_of_goesBy hgoes)
    exact ⟨name, hname, hwrong huse hne hpick hid⟩
  | @ignored name acc hgoes hname hacc hne huse =>
    have hmem : acc ∈ ctx.session.accounts := by
      rcases hacc with hdef | ⟨-, hhead⟩
      · exact List.mem_of_find?_eq_some hdef
      · exact List.mem_of_head? hhead
    obtain ⟨a, hpick, hid⟩ := exists_getCurrentAccount hmem (resolveAccountID_of_none hgoes hacc)
    exact ⟨name, .inr (.inr hname), hwrong huse hne hpick hid⟩

/-- An account that is picked, can be used, and is not the one that is named makes the request
go astray. -/
theorem misrouted_of_pick {name : String} (hname : r.Names name)
    (hpick : getCurrentAccount (some ctx) r = some (ctx, acc)) (huse : r.CanUse ctx acc)
    (hne : acc.id ≠ name) : Misrouted ctx r := by
  have hmem := mem_of_getCurrentAccount hpick
  cases hgoes : r.goesBy with
  | some used =>
    have hresolve : resolveAccountID r ctx.session = used := resolveAccountID_of_goesBy hgoes
    cases hf : ctx.session.accounts.find? fun a => a.id = resolveAccountID r ctx.session with
    | some a =>
      rw [getCurrentAccount_of_find hf] at hpick
      cases hpick
      have hid : acc.id = used := by
        rw [← hresolve]
        simpa using List.find?_some hf
      exact .passedOver hmem (hid ▸ hgoes) hname hne huse
    | none =>
      rw [getCurrentAccount_of_find_none hf] at hpick
      obtain ⟨a, hdefault, heq⟩ := Option.map_eq_some_iff.mp hpick
      cases heq
      rw [hresolve, List.find?_eq_none] at hf
      exact .unknown hgoes (fun a ha => by simpa using hf a ha) hdefault huse
  | none =>
    obtain ⟨hq, hx⟩ := goesBy_eq_none.mp hgoes
    have hpath : r.endpoint = .accountFolders name := by
      rcases hname with ⟨hn, hne'⟩ | ⟨hn, hne'⟩ | hpath
      · exact absurd (hn.symm.trans hq) hne'
      · exact absurd (hn.symm.trans hx) hne'
      · exact hpath
    -- the account that is resolved is in the list, so it is the one picked
    obtain ⟨b, hb⟩ : ∃ b, ctx.session.accounts.find? (·.isDefault) = some b ∨
        ctx.session.accounts.find? (·.isDefault) = none ∧ ctx.session.accounts.head? = some b := by
      cases hd : ctx.session.accounts.find? (·.isDefault) with
      | some b => exact ⟨b, .inl rfl⟩
      | none =>
        cases hl : ctx.session.accounts with
        | nil =>
          rw [hl] at hmem
          cases hmem
        | cons b rest => exact ⟨b, .inr ⟨rfl, rfl⟩⟩
    have hbmem : b ∈ ctx.session.accounts := by
      rcases hb with hdef | ⟨-, hhead⟩
      · exact List.mem_of_find?_eq_some hdef
      · exact List.mem_of_head? hhead
    obtain ⟨a, ha, hid⟩ := exists_getCurrentAccount hbmem (resolveAccountID_of_none hgoes hb)
    rw [ha] at hpick
    cases hpick
    refine .ignored hgoes hpath hb (hid ▸ hne) ?_
    rw [RoutedRequest.CanUse, ← hid]
    exact huse

end Routing

section Runs

variable {ι : Type} [DecidableEq ι] {P : Params} {reqs : ι → Request} {w₀ : World}
  {tr : List (Entry ι World Op Ans)} {c : Conf ι World Op Ans Resp}

/-- **Routing.** Whatever the requests of all sessions have done, a request in a session acts on
every account that it names, and on no other, or fails, just if it is none of those that go
astray. -/
theorem serve_iff (h₀ : SessionsOwned w₀) (hrun : Run (sem P) (start P reqs w₀) tr c)
    (hctx : ContextsOf reqs tr) {id : String} {ctx : MailContext}
    (hsess : c.state.sessions id = some ctx.session) (cfg? : Option ServerConfig)
    (r : RoutedRequest) :
    (∀ name, r.Names name → ActsOn cfg? ctx r name) ↔ ¬Misrouted ctx r := by
  refine ⟨fun h hmis => ?_, fun hmis name hname conns hok conn hconn => ?_⟩
  · obtain ⟨name, hname, hacts⟩ := hmis.acts cfg?
    exact hacts (h name hname)
  · cases hpick : getCurrentAccount (some ctx) r with
    | none => exact absurd hok (not_serve_of_none cfg? hpick conns)
    | some p =>
      obtain ⟨ctx', acc⟩ := p
      obtain rfl := ctx_of_getCurrentAccount hpick
      obtain ⟨huse, hall⟩ := (serve_eq_ok cfg? hpick).2 conns hok
      have hmem := mem_of_getCurrentAccount hpick
      rw [hall conn hconn]
      refine ⟨?_, hmem, sessionsOwned_run h₀ hrun hctx id _ hsess acc hmem⟩
      by_contra hne
      exact hmis (misrouted_of_pick hname hpick huse hne)

end Runs

/-! ## An account made in another session -/

/-- The owner `ann` with two sessions, both of which list her two accounts. -/
def annsSessions : World :=
  { annsWorld with
    sessions := fun id =>
      if id = "s" ∨ id = "t" then
        some ⟨id, "ann", "ann", [annsAccount "u" "ann", annsAccount "v" "bob"], 1⟩
      else none }

/-- In the session `s` she makes a third one. -/
def thirdAccount : Unit → Request := fun _ =>
  .createAccount (some annsContext)
    (.ok { email := "cat", imapHost := "imap", smtpHost := "smtp", password := "old-password" })

/-- The request alone. -/
def third : List (Entry Unit World Op Ans) × Conf Unit World Op Ans Resp :=
  runFaulty .sample (fun _ => false) (List.replicate 6 ()) thirdAccount annsSessions

/-- What the session `t` still looks like. -/
def annsOther : Session := ⟨"t", "ann", "ann", [annsAccount "u" "ann", annsAccount "v" "bob"], 1⟩

theorem sessionsOwned_annsSessions : SessionsOwned annsSessions := by
  intro id s hs a ha
  simp only [annsSessions] at hs
  split at hs
  · cases hs
    rcases List.mem_pair.mp ha with rfl | rfl <;> rfl
  · cases hs

theorem contextsOf_third : ContextsOf thirdAccount third.1 := by
  have hall : ∀ e ∈ third.1, (e.pre.sessions "s").map Session.email = some "ann" := by
    decide
  rintro e he ctx ⟨⟩ s hs
  have hemail := hall e he
  rw [show e.pre.sessions "s" = some s from hs] at hemail
  exact Option.some.inj hemail

/-- The folders of the default account are those that are listed. -/
theorem serve_iff_default :
    ActsOn none (authContext annsOther) { endpoint := .accountFolders "u" } "u" := by
  have hsess : third.2.state.sessions "t" = some (authContext annsOther).session := by
    decide +kernel
  refine (serve_iff sessionsOwned_annsSessions (run_runFaulty _ _ _ _ _) contextsOf_third hsess
    none _).mpr (fun hmis => ?_) "u" (.inr (.inr rfl))
  have hdefault : annsOther.accounts.find? (·.isDefault) = some (annsAccount "u" "ann") := by
    decide +kernel
  cases hmis with
  | unknown hname => cases hname
  | passedOver _ hgoes => cases hgoes
  | ignored _ hname hacc hne =>
    cases hname
    rcases hacc with hacc | ⟨hacc, -⟩
    · rw [show (authContext annsOther).session = annsOther from rfl, hdefault] at hacc
      cases hacc
      exact hne rfl
    · rw [show (authContext annsOther).session = annsOther from rfl, hdefault] at hacc
      cases hacc

/-- **The wrong mailbox.** The third account is there, and a request of the session `t` names it;
but what is deleted is in the default account. -/
theorem default_instead_of_named :
    Run (sem .sample) (start .sample thirdAccount annsSessions) third.1 third.2 ∧
    SessionsOwned annsSessions ∧ ContextsOf thirdAccount third.1 ∧
    third.2.state.sessions "t" = some annsOther ∧
    ∃ name, (∃ row ∈ third.2.state.accounts.rows, row.isOf .sample "ann" name = true) ∧
      ({ endpoint := .mail, account := name } : RoutedRequest).Names name ∧
      ¬ActsOn none (authContext annsOther) { endpoint := .mail, account := name } name := by
  refine ⟨run_runFaulty _ _ _ _ _, sessionsOwned_annsSessions, contextsOf_third,
    by decide +kernel, "uuuuuuuuuuuuu", by decide +kernel, .inl ⟨rfl, by decide⟩, fun hacts => ?_⟩
  have hserve : serve none (some (authContext annsOther))
      { endpoint := .mail, account := "uuuuuuuuuuuuu" } =
      .ok [imapConnection (authContext annsOther) (annsAccount "u" "ann") "old-password"] := rfl
  obtain ⟨hid, -⟩ := hacts _ hserve _ List.mem_cons_self
  exact absurd hid (by decide)

end E2Mail.Backend
