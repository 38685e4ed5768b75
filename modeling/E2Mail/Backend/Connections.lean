import E2Mail.Backend.AccountRouting
import E2Mail.Imap.Pool

/-!
# Sessions and their connections

What a session has running beside the tables: the pools of `PoolManager`, the listeners
of `IdleManager`, and its entry in `MemoryStore`, which expires.

* `Server` — the world with these, and `ConnOp` the calls on them, each of which is
  done under one lock; a pool goes through the steps of `PoolState`.
* `connected` — a handler of `Request` with its lines about connections put back.
* `ConnRequest` — the requests: mail, SSE, logout, those on accounts and passwords, the
  logins; and what happens beside them (the cleaner, the janitor, the dials, the clock).
* `startServer` — all requests about to start, with nothing connected yet.
-/

namespace E2Mail.Backend

open Lib Imap

/-! ## The server -/

/-- A pool of `PoolManager`. It leaves the map when it is closed, so the map has the open ones. -/
structure ManagedPool where
  sessionID : String
  accountID : String
  /-- `config`: what every client of the pool is dialled with -/
  config : ConnectionConfig
  state : PoolState
  deriving DecidableEq

/-- `IdleListener`. It leaves the map of `IdleManager` when it is stopped. -/
structure Listener where
  sessionID : String
  accountID : String
  config : ConnectionConfig
  closed : Bool
  deriving DecidableEq

/-- `poolKey.string` and `idleKey.string`. -/
def connectionKey (sessionID accountID : String) : String := sessionID ++ "::" ++ accountID

def ManagedPool.key (p : ManagedPool) : String := connectionKey p.sessionID p.accountID

def ManagedPool.isOpen (p : ManagedPool) : Bool := !p.state.pool.closed

/-- `UserPool.Close`. -/
def ManagedPool.close (p : ManagedPool) : ManagedPool :=
  { p with state := { p.state with pool := p.state.pool.close } }

def Listener.key (l : Listener) : String := connectionKey l.sessionID l.accountID

def Listener.isRunning (l : Listener) : Bool := !l.closed

/-- `IdleListener.Stop`. -/
def Listener.stop (l : Listener) : Listener := { l with closed := true }

/-- The state behind the handlers. `world.sessions` has the session objects, which a request
keeps using; the store's map has those that are `live`. -/
structure Server where
  world : World
  live : String → Bool
  /-- `LastActiveAt` -/
  lastActive : String → Nat
  /-- the pools, in the order in which they were made -/
  pools : List ManagedPool
  /-- the listeners, in the order in which they were started -/
  listeners : List Listener

namespace Server

variable (s : Server)

/-- What a clock shows, in nanoseconds. -/
def clock : Int := s.world.now * 1000000000

/-! ### The session store -/

/-- The session store after a call on the world: `MemoryStore.Create` puts the session into it. -/
def afterWorld : (o : Op) → Ans o → World → Server
  | .sessionCreate _ _, .ok sess, w =>
    { s with
      world := w
      live := Function.update s.live sess.id true
      lastActive := Function.update s.lastActive sess.id w.now }
  | _, _, w => { s with world := w }

/-- `time.Since(sess.LastActiveAt) > ms.ttl`. -/
def expired (ttl : Nat) (id : String) : Bool := decide (ttl < s.world.now - s.lastActive id)

/-- `MemoryStore.Get`, up to its look at the time: the session, and whether it has expired. -/
def lookSession (ttl : Nat) (id : String) : Option (Session × Bool) :=
  if s.live id then (s.world.sessions id).map fun sess => (sess, s.expired ttl id) else none

/-- `MemoryStore.Touch`. -/
def touch (id : String) : Server :=
  if s.live id then { s with lastActive := Function.update s.lastActive id s.world.now } else s

/-- `MemoryStore.Delete`. -/
def deleteSession (id : String) : Server := { s with live := Function.update s.live id false }

/-- A pass of `startCleaner`. -/
def clean (ttl : Nat) : Server := { s with live := fun id => s.live id && !s.expired ttl id }

/-! ### The pools -/

/-- The number of the pool in the map. -/
def poolAt (sessionID accountID : String) : Option Nat :=
  s.pools.findIdx? fun p => p.isOpen && p.key == connectionKey sessionID accountID

/-- `GetClient`, up to where it leaves the manager's lock: the number of the pool in the map, which
is a new one if there was none. -/
def lookupPool (sessionID accountID : String) (config : ConnectionConfig) : Nat × Server :=
  match s.poolAt sessionID accountID with
  | some i => (i, s)
  | none =>
    (s.pools.length, { s with
      pools := s.pools ++
        [⟨sessionID, accountID, config, PoolState.init 4 (5 * Imap.minute) s.clock⟩] })

/-- A step of a pool. -/
def poolStep (i : Nat) (a : PoolAction) : Option Server := do
  let p ← s.pools[i]?
  let state ← p.state.step a
  return { s with pools := s.pools.set i { p with state := state } }

/-- `Acquire`, up to where it leaves the lock: the number of the borrower. -/
def acquire (i : Nat) : Option (Nat × Server) := do
  let p ← s.pools[i]?
  let s' ← s.poolStep i (.acquire s.clock)
  return (p.state.borrows.length, s')

/-- How an `Acquire` has ended, once it has; a client was dialled with the pool's configuration. -/
def awaited (i borrower : Nat) : Option (Except AcquireError ConnectionConfig) := do
  let p ← s.pools[i]?
  match ← p.state.borrows[borrower]? with
  | .holding _ => some (.ok p.config)
  | .failed err => some (.error err)
  | _ => none

/-- Closes the open pools with the property. -/
def closePools (q : ManagedPool → Bool) : Server :=
  { s with pools := s.pools.map fun p => if p.isOpen && q p then p.close else p }

/-- `DestroyPool`. -/
def destroyPool (sessionID accountID : String) : Server :=
  s.closePools fun p => p.key == connectionKey sessionID accountID

/-- `DestroySessionPools`: the keys with the session's prefix. -/
def destroySessionPools (sessionID : String) : Server :=
  s.closePools fun p => (sessionID ++ "::").toList.isPrefixOf p.key.toList

/-- A pass of the pool manager's `startJanitor`. -/
def janitor : Server :=
  { s with
    pools := s.pools.map fun p =>
      if p.isOpen then { p with state := { p.state with pool := p.state.pool.janitor s.clock } }
      else p }

/-! ### The listeners -/

/-- There is a listener in the map. -/
def hasListener (sessionID accountID : String) : Bool :=
  s.listeners.any fun l => l.isRunning && l.key == connectionKey sessionID accountID

/-- `GetOrStartListener`. -/
def startListener (sessionID accountID : String) (config : ConnectionConfig) : Server :=
  if s.hasListener sessionID accountID then s
  else { s with listeners := s.listeners ++ [⟨sessionID, accountID, config, false⟩] }

/-- Stops the running listeners with the property. -/
def stopListeners (q : Listener → Bool) : Server :=
  { s with listeners := s.listeners.map fun l => if l.isRunning && q l then l.stop else l }

/-- `StopListener`. -/
def stopListener (sessionID accountID : String) : Server :=
  s.stopListeners fun l => l.key == connectionKey sessionID accountID

/-- `StopSessionListeners`: the keys with the session's prefix. -/
def stopSessionListeners (sessionID : String) : Server :=
  s.stopListeners fun l => (sessionID ++ "::").toList.isPrefixOf l.key.toList

end Server

/-! ## The calls -/

/-- What happens at a pool beside the calls of the handlers. -/
inductive PoolEvent where
  | dialOk (borrower : Nat)
  | dialErr (borrower : Nat) (err : String)
  /-- a borrower that waits looks again -/
  | poll (borrower : Nat)
  | giveUp (borrower : Nat) (cancelled : Bool)
  /-- a borrower uses its client, which may break -/
  | use (borrower : Nat) (rawClient : Bool)
  deriving DecidableEq

/-- The step of the pool. -/
def PoolEvent.action (now : Int) : PoolEvent → PoolAction
  | dialOk i => .dialOk i now
  | dialErr i err => .dialErr i err
  | poll i => .poll i now
  | giveUp i cancelled => .giveUp i cancelled
  | use i rawClient => .use i now rawClient

/-- The calls. -/
inductive ConnOp where
  | world (o : Op)
  | lookSession (id : String)
  | touch (id : String)
  | deleteSession (id : String)
  | clean
  | lookupPool (sessionID accountID : String) (config : ConnectionConfig)
  | acquire (pool : Nat)
  | await (pool borrower : Nat)
  /-- `GetClient` returns a client for an account: its pool, and what it was dialled with -/
  | handOut (accountID : String) (pool : Nat) (config : ConnectionConfig)
  | release (pool borrower : Nat)
  | poolEvent (pool : Nat) (ev : PoolEvent)
  | destroyPool (sessionID accountID : String)
  | destroySessionPools (sessionID : String)
  | janitor
  | startListener (sessionID accountID : String) (config : ConnectionConfig)
  | stopListener (sessionID accountID : String)
  | stopSessionListeners (sessionID : String)
  /-- the response is written -/
  | answer (resp : Resp)

/-- The type of a call's answer. -/
@[reducible] def ConnAns : ConnOp → Type
  | .world o => Ans o
  | .lookSession _ => Option (Session × Bool)
  | .lookupPool _ _ _ | .acquire _ => Nat
  | .await _ _ => Except AcquireError ConnectionConfig
  | _ => Unit

/-- What a call does, if it can be made; `ttl` is the session store's. -/
def Server.step (ttl : Nat) (s : Server) : (o : ConnOp) → Option (ConnAns o × Server)
  | .world _ => none
  | .lookSession id => some (s.lookSession ttl id, s)
  | .touch id => some ((), s.touch id)
  | .deleteSession id => some ((), s.deleteSession id)
  | .clean => some ((), s.clean ttl)
  | .lookupPool sid aid config => some (s.lookupPool sid aid config)
  | .acquire i => s.acquire i
  | .await i borrower => (s.awaited i borrower).map fun r => (r, s)
  | .handOut _ _ _ => some ((), s)
  | .release i borrower => (s.poolStep i (.release borrower s.clock)).map fun s' => ((), s')
  | .poolEvent i ev => (s.poolStep i (ev.action s.clock)).map fun s' => ((), s')
  | .destroyPool sid aid => some ((), s.destroyPool sid aid)
  | .destroySessionPools sid => some ((), s.destroySessionPools sid)
  | .janitor => some ((), s.janitor)
  | .startListener sid aid config => some ((), s.startListener sid aid config)
  | .stopListener sid aid => some ((), s.stopListener sid aid)
  | .stopSessionListeners sid => some ((), s.stopSessionListeners sid)
  | .answer _ => some ((), s)

/-- What a call may do: a call on the world may also fail. -/
def connSem (P : Params) (ttl : Nat) : Sem Server ConnOp ConnAns
  | .world o, s, r, s' => ∃ w, sem P o s.world r w ∧ s' = s.afterWorld o r w
  | o, s, r, s' => s.step ttl o = some (r, s')

/-- A call when nothing fails. -/
def connExec (P : Params) (ttl : Nat) : (o : ConnOp) → Server → Option (ConnAns o × Server)
  | .world o, s => (execFaulty P (fun _ => false) o s.world).map fun rw => (rw.1, s.afterWorld o rw.1 rw.2)
  | o, s => s.step ttl o

theorem connSem_of_connExec {P : Params} {ttl : Nat} (o : ConnOp) (s : Server) (r : ConnAns o)
    (s' : Server) (h : connExec P ttl o s = some (r, s')) : connSem P ttl o s r s' := by
  cases o with
  | world o =>
    obtain ⟨⟨r', w⟩, hw, heq⟩ := Option.map_eq_some_iff.mp h
    cases heq
    exact ⟨w, sem_of_execFaulty hw, rfl⟩
  | _ => exact h

/-! ## The handlers -/

/-- A handler with its lines about connections. -/
abbrev Serving (α : Type) : Type := Prog ConnOp ConnAns α

/-- A handler that makes one call. -/
def conn (o : ConnOp) : Serving (ConnAns o) := Prog.perform o

/-- Writes the response. -/
def answer (resp : Resp) : Serving Resp := do
  conn (.answer resp)
  return resp

/-- `Auth`, on a token. -/
def authenticate (token : String) : Serving (Option MailContext) := do
  match ← conn (.lookSession token) with
  | none => return none
  | some (_, true) =>
    conn (.deleteSession token)
    return none
  | some (sess, false) =>
    let accounts ← conn (.world (.sessionAccounts sess.id))
    conn (.touch sess.id)
    return some ⟨sess, passwordsOf sess.dek accounts⟩

/-- A request behind `Auth`; the session's list is the one at the time it is asked for. -/
def withSession (token : String) (serve : MailContext → Serving Resp) : Serving Resp := do
  match ← authenticate token with
  | none => answer (unauthorized "session expired or invalid")
  | some ctx => serve ctx

/-- The configuration of a connection to an account. -/
def Account.imapConfig (acc : Account) (password : String) : ConnectionConfig :=
  { host := acc.imapHost
    port := acc.imapPort
    useTLS := acc.imapUseTLS
    allowInsecureTLS := acc.imapAllowInsecureTLS
    username := acc.username
    password := password }

/-- A request under `/mail`: `acquireClient`, then what the handler does with the client, of which
only its `failed` and its `done` response are told. -/
def mail (r : RoutedRequest) (failed done : Resp) (ctx : MailContext) : Serving Resp := do
  let accounts ← conn (.world (.sessionAccounts ctx.session.id))
  match acquireClient (some { ctx with session := { ctx.session with accounts := accounts } }) r with
  | .ok (.imap _ sessionID accountID config) =>
    let pool ← conn (.lookupPool sessionID accountID config)
    let borrower ← conn (.acquire pool)
    match ← conn (.await pool borrower) with
    | .error _ => answer failed
    | .ok dialled =>
      conn (.handOut accountID pool dialled)
      conn (.release pool borrower)
      answer done
  | _ => answer failed

/-- The loop of `SSE` over the accounts. -/
def startListeners (ctx : MailContext) : List Account → Serving Unit
  | [] => return ()
  | acc :: accounts => do
    conn (.startListener ctx.session.id acc.id (acc.imapConfig (ctx.passwords acc.id)))
    startListeners ctx accounts

/-- `SSE`, up to its first event. -/
def sse (ctx : MailContext) : Serving Resp := do
  let accounts ← conn (.world (.sessionAccounts ctx.session.id))
  startListeners ctx accounts
  answer (.success (.done "CONNECTED"))

/-- `Logout`. -/
def logout (ctx : MailContext) : Serving Resp := do
  conn (.stopSessionListeners ctx.session.id)
  conn (.destroySessionPools ctx.session.id)
  conn (.deleteSession ctx.session.id)
  answer (.success (.done "message"))

/-- `startIdleForAccounts`; a password that does not decrypt is passed over. -/
def startIdleForAccounts (sess : Session) : List Account → Serving Unit
  | [] => return ()
  | acc :: accounts => do
    match acc.encIMAPPassword.decrypt (.dek sess.dek) with
    | none => startIdleForAccounts sess accounts
    | some imapPass =>
      conn (.startListener sess.id acc.id (acc.imapConfig imapPass))
      startIdleForAccounts sess accounts

/-- `restartAccountConnections`. -/
def restartAccountConnections (sessionID : String) (acc : Account) (plainPassword : String) :
    Serving Unit := do
  conn (.destroyPool sessionID acc.id)
  conn (.stopListener sessionID acc.id)
  conn (.startListener sessionID acc.id (acc.imapConfig plainPassword))

/-- The lines about connections that come right after a call. `saved` is the account row that the
handler has written last, `newPassword` is there for `ChangePassword`. -/
def connectionLines (sessionID : String) (newPassword : Option String) (saved : Option Account) :
    (o : Op) → Ans o → Serving Unit
  | .sessionCreate _ _, .ok sess => startIdleForAccounts sess sess.accounts
  | .deleteAccount _ id, .ok () => do
    conn (.stopListener sessionID id)
    conn (.destroyPool sessionID id)
  | .setSessionAccounts _ _, () =>
    match newPassword, saved with
    | some password, some acc => restartAccountConnections sessionID acc password
    | _, _ => return ()
  | _, _ => return ()

/-- The account row written last, after a call. -/
def savedAfter (saved : Option Account) : (o : Op) → Ans o → Option Account
  | .updateAccount _ _, .ok acc => some acc
  | _, _ => saved

/-- A handler over the world, with its lines about connections put back. -/
def connected (sessionID : String) (newPassword : Option String) :
    Option Account → Handler Resp → Serving Resp
  | _, .ret resp => answer resp
  | saved, .call o k => do
    let r ← conn (.world o)
    connectionLines sessionID newPassword saved o r
    connected sessionID newPassword (savedAfter saved o r) (k r)

/-- The new password of a body that decodes. -/
def newPassword? : Except BodyErr ChangePasswordRequest → Option String
  | .ok req => some req.newPassword
  | .error _ => none

/-! ## Requests -/

/-- The requests on accounts and passwords. -/
inductive AccountRequestKind where
  | changePassword (body : Except BodyErr ChangePasswordRequest)
  | createAccount (body : Except BodyErr AccountRequest)
  | updateAccount (id : String) (body : Except BodyErr AccountRequest)
  | deleteAccount (id : String)
  | setDefaultAccount (id : String)

/-- The request behind `Auth`. -/
def AccountRequestKind.request (ctx : AuthContext) : AccountRequestKind → Request
  | changePassword body => .changePassword (some ctx) body
  | createAccount body => .createAccount (some ctx) body
  | updateAccount id body => .updateAccount (some ctx) id body
  | deleteAccount id => .deleteAccount (some ctx) id
  | setDefaultAccount id => .setDefaultAccount (some ctx) id

/-- The new password, for `ChangePassword`. -/
def AccountRequestKind.newPassword? : AccountRequestKind → Option String
  | changePassword body => Backend.newPassword? body
  | _ => none

/-- The requests that need no session, and what else happens to the world. -/
inductive LoginRequestKind where
  | login (ip : String) (body : Except BodyErr LoginRequest)
  | verify2FA (ip : String) (body : Except BodyErr Verify2FARequest)
  | webAuthnLoginBegin (ip : String) (body : Except BodyErr String)
  | webAuthnLoginVerify (ip ceremonyID assertion : String)
  | env (step : EnvStep)

/-- The request. -/
def LoginRequestKind.request : LoginRequestKind → Request
  | login ip body => .login ip body
  | verify2FA ip body => .verify2FA ip body
  | webAuthnLoginBegin ip body => .webAuthnLoginBegin ip body
  | webAuthnLoginVerify ip ceremonyID assertion => .webAuthnLoginVerify ip ceremonyID assertion
  | env step => .env step

/-- What happens at a server. -/
inductive ConnRequest where
  | mail (token : String) (r : RoutedRequest) (failed done : Resp)
  | sse (token : String)
  | logout (token : String)
  | account (token : String) (kind : AccountRequestKind)
  | anyone (kind : LoginRequestKind)
  /-- a pass of the session store's cleaner -/
  | cleaner
  /-- a pass of the pool manager's janitor -/
  | janitor
  | atPool (pool : Nat) (ev : PoolEvent)

/-- The program of a request. -/
def ConnRequest.prog (P : Params) : ConnRequest → Serving Resp
  | mail token r failed done => withSession token (Backend.mail r failed done)
  | sse token => withSession token Backend.sse
  | logout token => withSession token Backend.logout
  | account token kind => withSession token fun ctx =>
    connected ctx.session.id kind.newPassword? none
      ((kind.request ⟨ctx.session.id, ctx.session.email, ctx.session.dek⟩).prog P)
  | anyone kind => connected "" none none (kind.request.prog P)
  | cleaner => do
    conn .clean
    return .success (.done "")
  | janitor => do
    conn .janitor
    return .success (.done "")
  | atPool pool ev => do
    conn (.poolEvent pool ev)
    return .success (.done "")

/-- All requests about to start at a server, with nothing connected yet. -/
def startServer {ι : Type} (P : Params) (reqs : ι → ConnRequest) (w : World)
    (live : String → Bool) (lastActive : String → Nat) : Conf ι Server ConnOp ConnAns Resp :=
  ⟨⟨w, live, lastActive, [], []⟩, fun i => (reqs i).prog P⟩

/-- A run by a schedule in which nothing fails. -/
def runServer {ι : Type} [DecidableEq ι] (P : Params) (ttl : Nat) (order : List ι)
    (reqs : ι → ConnRequest) (w : World) (live : String → Bool) (lastActive : String → Nat) :
    List (Entry ι Server ConnOp ConnAns) × Conf ι Server ConnOp ConnAns Resp :=
  schedule (connExec P ttl) order [] (startServer P reqs w live lastActive)

theorem run_runServer {ι : Type} [DecidableEq ι] (P : Params) (ttl : Nat) (order : List ι)
    (reqs : ι → ConnRequest) (w : World) (live : String → Bool) (lastActive : String → Nat) :
    Run (connSem P ttl) (startServer P reqs w live lastActive)
      (runServer P ttl order reqs w live lastActive).1
      (runServer P ttl order reqs w live lastActive).2 :=
  Run.of_schedule connSem_of_connExec order Run.nil

end E2Mail.Backend
