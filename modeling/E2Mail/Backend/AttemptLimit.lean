import E2Mail.Lib.NetAddr
import E2Mail.Backend.World
import Mathlib.Data.List.Induction

/-!
# Who an attempt counts against

The address a request is attributed to, and the failure limiter that counts by it.

* `served` — the request a handler sees: `CapturePeerAddr` has kept the peer's
  address, then chi's `RealIP` has overwritten `RemoteAddr` from the headers.
* `clientIP` — the address the request limiter goes by; `requestIP` — the one the
  failure limiters of passwords, codes and passkeys go by.
* `clientIP_served` and `ipKey_served_iff` — the first does not depend on the headers of
  a peer from outside; when the second does not.
* `blockedByIP_iff` — a client is refused exactly when enough of the failures in
  the window were recorded for requests attributed to the same address.
-/

namespace E2Mail.Backend

open Lib.NetAddr

/-! ## Requests -/

/-- `r.Header.Get`: the first value under a canonical name, or empty. -/
abbrev Headers : Type := String → String

/-- What the address functions read of an `http.Request`. -/
structure AddrRequest where
  remoteAddr : String
  header : Headers
  /-- the value under `peerAddrContextKey`, if it was stored -/
  peer : Option String

/-- `parseRemoteIP`. -/
def parseRemoteIP (remote : String) : String :=
  match splitHostPort (trimSpace remote).toList with
  | some (host, _) => String.ofList host
  | none => String.ofList (Lib.Text.trimBy (fun c => c == '[' || c == ']') (trimSpace remote).toList)

/-- `CapturePeerAddr`. -/
def capturePeerAddr (r : AddrRequest) : AddrRequest :=
  { r with peer := some (parseRemoteIP r.remoteAddr) }

/-- The address chi's `RealIP` takes from the headers: the first of `True-Client-IP`, `X-Real-IP`
and `X-Forwarded-For` (up to its first comma) that is there, if it is `accepts`-ed as one. -/
def realIP (accepts : String → Bool) (header : Headers) : Option String :=
  let ip :=
    if header "True-Client-IP" ≠ "" then header "True-Client-IP"
    else if header "X-Real-IP" ≠ "" then header "X-Real-IP"
    else String.ofList ((header "X-Forwarded-For").toList.takeWhile (· != ','))
  if ip = "" ∨ accepts ip = false then none else some ip

/-- `chimiddleware.RealIP`. -/
def overwriteRemoteAddr (accepts : String → Bool) (r : AddrRequest) : AddrRequest :=
  match realIP accepts r.header with
  | some ip => { r with remoteAddr := ip }
  | none => r

/-- The request behind the router's middleware, from a socket's peer address and the headers. -/
def served (accepts : String → Bool) (remote : String) (header : Headers) : AddrRequest :=
  overwriteRemoteAddr accepts (capturePeerAddr ⟨remote, header, none⟩)

/-- `clientIP`. -/
def clientIP (r : AddrRequest) : String :=
  let peer := if r.peer.getD "" = "" then parseRemoteIP r.remoteAddr else r.peer.getD ""
  match parseIP peer.toList with
  | some parsed =>
    if parsed.isLoopback then
      match parseIP (trimSpace (r.header "X-Forwarded-For")).toList with
      | some ip => String.ofList ip.text
      | none => peer
    else peer
  | none => peer

/-- `requestIP`. -/
def requestIP (r : AddrRequest) : String :=
  match splitHostPort r.remoteAddr.toList with
  | some (host, _) => String.ofList host
  | none => trimSpace r.remoteAddr

/-! ## The failure limiter -/

/-- A second, in the nanoseconds of `time.Duration`. -/
def second : Nat := 1000000000

/-- A minute. -/
def minute : Nat := 60 * second

/-- `auth.AttemptLimiter`: the times of the failures under a key. -/
structure AttemptLimiter where
  failures : String → List Nat

namespace AttemptLimiter

/-- `NewAttemptLimiter`. -/
def new : AttemptLimiter := ⟨fun _ => []⟩

/-- The limiter with other failures under one key; none is no entry. -/
def put (l : AttemptLimiter) (key : String) (times : List Nat) : AttemptLimiter :=
  ⟨fun k => if k = key then times else l.failures k⟩

/-- `AttemptLimiter.recent`: what it finds in the window, and drops from before it. -/
def recent (l : AttemptLimiter) (now : Nat) (key : String) (window : Nat) :
    List Nat × AttemptLimiter :=
  let kept := (l.failures key).filter fun t => now < t + window
  (kept, l.put key kept)

/-- `AttemptLimiter.Blocked`. -/
def blocked (l : AttemptLimiter) (now : Nat) (key : String) (maxFailures window : Nat) :
    Bool × AttemptLimiter :=
  (decide (maxFailures ≤ (l.recent now key window).1.length), (l.recent now key window).2)

/-- `AttemptLimiter.RecordFailure`. -/
def recordFailure (l : AttemptLimiter) (now : Nat) (key : String) : AttemptLimiter :=
  (l.recent now key (60 * minute)).2.put key ((l.recent now key (60 * minute)).1 ++ [now])

/-- `AttemptLimiter.Reset`. -/
def reset (l : AttemptLimiter) (key : String) : AttemptLimiter := l.put key []

end AttemptLimiter

/-- What the three kinds of attempts differ in. -/
structure AttemptRule where
  ipPrefix : String
  emailPrefix : String
  maxIP : Nat
  maxEmail : Nat
  window : Nat
  /-- `Blocked` does not look at the key of an empty email -/
  skipsEmpty : Bool
  message : String

/-- The kinds of attempts that a failure limiter counts by address. -/
inductive AttemptKind where
  | login
  | totp
  | webauthn
  deriving DecidableEq

/-- The constants of each kind. -/
def AttemptKind.rule : AttemptKind → AttemptRule
  | .login => ⟨"login:ip:", "login:email:", 20, 10, 15 * minute, false,
      "too many failed login attempts, try again later"⟩
  | .totp => ⟨"totp:ip:", "totp:email:", 8, 8, 10 * minute, true,
      "too many failed 2FA attempts, try again later"⟩
  | .webauthn => ⟨"webauthn:ip:", "webauthn:email:", 8, 8, 10 * minute, true,
      "too many failed passkey attempts, try again later"⟩

/-- `loginIPKey`, `totpIPKey`, and the key that the passkey handlers write out. -/
def AttemptKind.ipKey (kind : AttemptKind) (r : AddrRequest) : String :=
  kind.rule.ipPrefix ++ requestIP r

/-- `loginEmailKey`, `totpEmailKey`, and the one of the passkey handlers. -/
def AttemptKind.emailKey (P : Params) (kind : AttemptKind) (email : String) : String :=
  kind.rule.emailPrefix ++ P.normalizeEmail email

/-- `loginBlocked`, `totpBlocked`, `webauthnBlocked`: the text of the refusal, if there is one. -/
def AttemptKind.blocked (P : Params) (kind : AttemptKind) (l : AttemptLimiter) (now : Nat)
    (r : AddrRequest) (email : String) : Option String × AttemptLimiter :=
  let byIP := l.blocked now (kind.ipKey r) kind.rule.maxIP kind.rule.window
  if byIP.1 then (some kind.rule.message, byIP.2)
  else if kind.rule.skipsEmpty ∧ email = "" then (none, byIP.2)
  else
    let byEmail := byIP.2.blocked now (kind.emailKey P email) kind.rule.maxEmail kind.rule.window
    (if byEmail.1 then some kind.rule.message else none, byEmail.2)

/-- `recordLoginFailure`, `recordTOTPFailure`, `recordWebAuthnFailure`. -/
def AttemptKind.recordFailure (P : Params) (kind : AttemptKind) (l : AttemptLimiter) (now : Nat)
    (r : AddrRequest) (email : String) : AttemptLimiter :=
  let l := l.recordFailure now (kind.ipKey r)
  if email = "" then l else l.recordFailure now (kind.emailKey P email)

/-- `resetLoginFailures`, `resetTOTPFailures`, `resetWebAuthnFailures`. -/
def AttemptKind.reset (P : Params) (kind : AttemptKind) (l : AttemptLimiter)
    (r : AddrRequest) (email : String) : AttemptLimiter :=
  let l := l.reset (kind.ipKey r)
  if email = "" then l else l.reset (kind.emailKey P email)

/-! ## Whom a request is attributed to -/

variable {accepts : String → Bool} {remote : String}

/-- The socket's peer has an address, and it is not a loopback address. -/
def FromOutside (remote : String) : Prop :=
  parseRemoteIP remote ≠ "" ∧
    ∀ ip ∈ parseIP (parseRemoteIP remote).toList, ip.isLoopback = false

instance : Decidable (FromOutside remote) :=
  inferInstanceAs (Decidable (_ ∧ ∀ ip ∈ parseIP (parseRemoteIP remote).toList, _))

/-- Two addresses are the same once their ports, or else the blanks around them, are cut off. -/
def SameHost (a b : String) : Prop :=
  (splitHostPort a.toList).elim (trimSpace a) (fun hp => String.ofList hp.1) =
    (splitHostPort b.toList).elim (trimSpace b) fun hp => String.ofList hp.1

/-- Two choices of headers name the same client for a peer: the same host, or none, or one
names the peer's own host and the other none. -/
def SameClient (accepts : String → Bool) (remote : String) (h₁ h₂ : Headers) : Prop :=
  match realIP accepts h₁, realIP accepts h₂ with
  | none, none => True
  | some a, some b => SameHost a b
  | some a, none | none, some a => SameHost remote a

theorem served_remoteAddr (header : Headers) :
    (served accepts remote header).remoteAddr = (realIP accepts header).getD remote := by
  rw [served, overwriteRemoteAddr, capturePeerAddr]
  cases realIP accepts header <;> rfl

theorem served_peer (header : Headers) :
    (served accepts remote header).peer = some (parseRemoteIP remote) := by
  rw [served, overwriteRemoteAddr, capturePeerAddr]
  cases realIP accepts header <;> rfl

theorem requestIP_eq_iff {r r' : AddrRequest} :
    requestIP r = requestIP r' ↔ SameHost r.remoteAddr r'.remoteAddr := by
  rw [requestIP, requestIP, SameHost]
  rcases splitHostPort r.remoteAddr.toList with _ | ⟨h, p⟩ <;>
    rcases splitHostPort r'.remoteAddr.toList with _ | ⟨h', p'⟩ <;> rfl

/-- The request limiter goes by the socket's peer, whatever a peer from outside writes. -/
theorem clientIP_served (hout : FromOutside remote) (header : Headers) :
    clientIP (served accepts remote header) = parseRemoteIP remote := by
  have hpeer : (served accepts remote header).peer.getD "" = parseRemoteIP remote := by
    rw [served_peer, Option.getD_some]
  rw [clientIP, hpeer, if_neg hout.1]
  cases hip : parseIP (parseRemoteIP remote).toList with
  | none => rfl
  | some ip =>
    have hno : ip.isLoopback = false := hout.2 ip hip
    simp only [hno, Bool.false_eq_true, if_false]

/-- The failure limiters go by what `RealIP` has left in `RemoteAddr`. -/
theorem requestIP_served_iff (h₁ h₂ : Headers) :
    requestIP (served accepts remote h₁) = requestIP (served accepts remote h₂) ↔
      SameClient accepts remote h₁ h₂ := by
  rw [requestIP_eq_iff, served_remoteAddr, served_remoteAddr, SameClient]
  cases realIP accepts h₁ with
  | none =>
    cases realIP accepts h₂ with
    | none => exact iff_of_true rfl trivial
    | some b => exact Iff.rfl
  | some a =>
    cases realIP accepts h₂ with
    | none => exact ⟨Eq.symm, Eq.symm⟩
    | some b => exact Iff.rfl

/-! ## The keys -/

theorem append_right_inj {a b c : String} (h : a ++ b = a ++ c) : b = c := by
  have hlist := congrArg String.toList h
  rw [String.toList_append, String.toList_append] at hlist
  exact String.toList_injective (List.append_cancel_left hlist)

/-- Keys by address are those of the same kind and the same address. -/
theorem ipKey_inj {kind kind' : AttemptKind} {r r' : AddrRequest} :
    kind.ipKey r = kind'.ipKey r' ↔ kind = kind' ∧ requestIP r = requestIP r' := by
  constructor
  · intro h
    have hkind : kind = kind' := by
      have hlist := congrArg String.toList h
      cases kind <;> cases kind' <;>
        first
        | rfl
        | simp [AttemptKind.ipKey, AttemptKind.rule] at hlist
    subst hkind
    exact ⟨rfl, append_right_inj h⟩
  · rintro ⟨rfl, h⟩
    rw [AttemptKind.ipKey, AttemptKind.ipKey, h]

/-- A key by address is no key by email. -/
theorem emailKey_ne_ipKey {P : Params} {kind kind' : AttemptKind} {email : String}
    {r : AddrRequest} : kind'.emailKey P email ≠ kind.ipKey r := by
  intro h
  have hlist := congrArg String.toList h
  cases kind <;> cases kind' <;>
    simp [AttemptKind.ipKey, AttemptKind.emailKey, AttemptKind.rule] at hlist

/-- **Which headers change the key**: the request limiter attributes all requests of a peer
from outside to one address, but the failure limiters give two of them the same key
exactly when their headers name the same client. -/
theorem ipKey_served_iff (accepts : String → Bool) {remote : String} (hout : FromOutside remote)
    (kind : AttemptKind) (h₁ h₂ : Headers) :
    clientIP (served accepts remote h₁) = clientIP (served accepts remote h₂) ∧
      (kind.ipKey (served accepts remote h₁) = kind.ipKey (served accepts remote h₂) ↔
        SameClient accepts remote h₁ h₂) := by
  refine ⟨(clientIP_served hout h₁).trans (clientIP_served hout h₂).symm, ?_⟩
  rw [ipKey_inj, requestIP_served_iff]
  exact and_iff_right rfl

/-- Headers with one value. -/
def oneHeader (name value : String) : Headers := fun n => if n = name then value else ""

/-- Headers that `RealIP` takes nothing from name no client. -/
theorem sameClient_of_none {h₁ h₂ : Headers} (hnone₁ : realIP accepts h₁ = none)
    (hnone₂ : realIP accepts h₂ = none) : SameClient accepts remote h₁ h₂ := by
  rw [SameClient, hnone₁, hnone₂]
  trivial

/-- Two requests of one peer that only differ in a header nothing here reads. -/
theorem ipKey_served_userAgent :
    FromOutside "203.0.113.9:4711" ∧
      AttemptKind.totp.ipKey
          (served (fun _ => true) "203.0.113.9:4711" (oneHeader "User-Agent" "a")) =
        AttemptKind.totp.ipKey
          (served (fun _ => true) "203.0.113.9:4711" (oneHeader "User-Agent" "b")) :=
  have hout : FromOutside "203.0.113.9:4711" := by decide +kernel
  ⟨hout, (ipKey_served_iff _ hout .totp _ _).2.mpr
    (sameClient_of_none (by decide +kernel) (by decide +kernel))⟩

/-- A peer from outside that writes another `X-Real-IP` gets another key of every kind. -/
theorem ipKey_realIP :
    FromOutside "203.0.113.9:4711" ∧ ∀ kind : AttemptKind,
      kind.ipKey (served (fun _ => true) "203.0.113.9:4711" (oneHeader "X-Real-IP" "1.1.1.1")) ≠
        kind.ipKey (served (fun _ => true) "203.0.113.9:4711" (oneHeader "X-Real-IP" "2.2.2.2")) := by
  refine ⟨by decide +kernel, fun kind => ?_⟩
  cases kind <;> decide +kernel

/-! ## Counting -/

/-- What a handler asks of the limiter. -/
inductive LimiterAct where
  | blocked
  | recordFailure
  | reset

/-- A call of the limiter, with the time it is made at. -/
structure LimiterCall where
  now : Nat
  kind : AttemptKind
  act : LimiterAct
  request : AddrRequest
  email : String

variable {P : Params}

/-- The limiter after a call. -/
def AttemptLimiter.step (P : Params) (l : AttemptLimiter) (c : LimiterCall) : AttemptLimiter :=
  match c.act with
  | .blocked => (c.kind.blocked P l c.now c.request c.email).2
  | .recordFailure => c.kind.recordFailure P l c.now c.request c.email
  | .reset => c.kind.reset P l c.request c.email

/-- The limiter after the calls of a run. -/
def AttemptLimiter.run (P : Params) (calls : List LimiterCall) : AttemptLimiter :=
  calls.foldl (AttemptLimiter.step P) .new

/-- A call is about the attempts of one kind from the address of a request. -/
def LimiterCall.About (kind : AttemptKind) (r : AddrRequest) (c : LimiterCall) : Prop :=
  c.kind = kind ∧ requestIP c.request = requestIP r

instance (kind : AttemptKind) (r : AddrRequest) (c : LimiterCall) : Decidable (c.About kind r) :=
  inferInstanceAs (Decidable (_ ∧ _))

/-- The failures a call leaves on the account of an address, from those before it. -/
def countStep (kind : AttemptKind) (r : AddrRequest) (times : List Nat) (c : LimiterCall) :
    List Nat :=
  if c.About kind r then
    match c.act with
    | .blocked => times
    | .recordFailure => times ++ [c.now]
    | .reset => []
  else times

/-- The times of the failures of one kind that a run has recorded for the address of a
request, since the last success from there. -/
def counted (kind : AttemptKind) (r : AddrRequest) (calls : List LimiterCall) : List Nat :=
  calls.foldl (countStep kind r) []

/-- The times that are still in a window. -/
def inWindow (now window : Nat) (times : List Nat) : List Nat :=
  times.filter fun t => now < t + window

namespace AttemptLimiter

variable {l : AttemptLimiter} {k key : String} {now later window w : Nat}

theorem failures_put (times : List Nat) :
    (l.put key times).failures k = if k = key then times else l.failures k := rfl

/-- What has left a window does not come back to it, nor to a smaller one. -/
theorem inWindow_inWindow (times : List Nat) (hle : now ≤ later) (hw : window ≤ w) :
    inWindow later window (inWindow now w times) = inWindow later window times := by
  rw [inWindow, inWindow, inWindow, List.filter_filter]
  refine List.filter_congr fun t _ => ?_
  rw [Bool.and_eq_left_iff_imp, decide_eq_true_eq, decide_eq_true_eq]
  omega

/-- `recent` drops nothing that is in the window later. -/
theorem inWindow_recent (hle : now ≤ later) (hw : k = key → window ≤ w) :
    inWindow later window ((l.recent now key w).2.failures k) =
      inWindow later window (l.failures k) := by
  rw [recent, failures_put]
  split
  next heq =>
    subst heq
    exact inWindow_inWindow _ hle (hw rfl)
  next => rfl

/-- A recorded failure counts under its key, in any window up to an hour. -/
theorem inWindow_recordFailure (hle : now ≤ later) (hw : window ≤ 60 * minute) :
    inWindow later window ((l.recordFailure now key).failures k) =
      inWindow later window (if k = key then l.failures k ++ [now] else l.failures k) := by
  rw [recordFailure, failures_put]
  split
  next heq =>
    subst heq
    rw [recent, inWindow, List.filter_append, inWindow, List.filter_append]
    exact congrArg (· ++ _) (inWindow_inWindow _ hle hw)
  next hne => exact inWindow_recent hle fun heq => absurd heq hne

theorem failures_reset :
    (l.reset key).failures k = if k = key then [] else l.failures k := rfl

end AttemptLimiter

/-- A check leaves what `recent` leaves, under the address's key alone or under both keys. -/
theorem blocked_snd (kind : AttemptKind) (l : AttemptLimiter) (now : Nat) (r : AddrRequest)
    (email : String) :
    (kind.blocked P l now r email).2 = (l.recent now (kind.ipKey r) kind.rule.window).2 ∨
      (kind.blocked P l now r email).2 =
        ((l.recent now (kind.ipKey r) kind.rule.window).2.recent now (kind.emailKey P email)
          kind.rule.window).2 := by
  rw [AttemptKind.blocked]
  by_cases hip : (l.blocked now (kind.ipKey r) kind.rule.maxIP kind.rule.window).1 = true
  · rw [if_pos hip]
    exact .inl rfl
  · rw [if_neg hip]
    by_cases hskip : kind.rule.skipsEmpty = true ∧ email = ""
    · rw [if_pos hskip]
      exact .inl rfl
    · rw [if_neg hskip]
      exact .inr rfl

theorem window_le_hour (kind : AttemptKind) : kind.rule.window ≤ 60 * minute := by
  cases kind <;> decide

/-- **One call**: what is under the key of an address changes as `countStep` says, as far as
any later window shows. -/
theorem inWindow_step (l : AttemptLimiter) (kind : AttemptKind) (r : AddrRequest) (c : LimiterCall)
    {later : Nat} (hle : c.now ≤ later) :
    inWindow later kind.rule.window ((l.step P c).failures (kind.ipKey r)) =
      inWindow later kind.rule.window (countStep kind r (l.failures (kind.ipKey r)) c) := by
  have habout : kind.ipKey r = c.kind.ipKey c.request ↔ c.About kind r := by
    rw [ipKey_inj]
    exact ⟨fun h => ⟨h.1.symm, h.2.symm⟩, fun h => ⟨h.1.symm, h.2.symm⟩⟩
  have hemail : kind.ipKey r ≠ c.kind.emailKey P c.email := Ne.symm emailKey_ne_ipKey
  have hhour := window_le_hour kind
  -- `Blocked` on a key of this kind looks at the same window, on another it touches nothing
  have hwindow : kind.ipKey r = c.kind.ipKey c.request →
      kind.rule.window ≤ c.kind.rule.window := fun h => by rw [(habout.mp h).1]
  rw [AttemptLimiter.step, countStep]
  cases c.act with
  | blocked =>
    have hcount : (if c.About kind r then l.failures (kind.ipKey r)
        else l.failures (kind.ipKey r)) = l.failures (kind.ipKey r) := ite_self _
    rw [hcount]
    change inWindow _ _ ((c.kind.blocked P l c.now c.request c.email).2.failures _) = _
    rcases blocked_snd (P := P) c.kind l c.now c.request c.email with h | h
    · rw [h]
      exact AttemptLimiter.inWindow_recent hle hwindow
    · rw [h, AttemptLimiter.inWindow_recent hle fun h => absurd h hemail]
      exact AttemptLimiter.inWindow_recent hle hwindow
  | recordFailure =>
    simp only [AttemptKind.recordFailure]
    have hip : inWindow later kind.rule.window
        ((l.recordFailure c.now (c.kind.ipKey c.request)).failures (kind.ipKey r)) =
          inWindow later kind.rule.window (if c.About kind r then l.failures (kind.ipKey r) ++ [c.now]
            else l.failures (kind.ipKey r)) := by
      rw [AttemptLimiter.inWindow_recordFailure hle hhour, if_congr habout rfl rfl]
    split
    · exact hip
    · rw [AttemptLimiter.inWindow_recordFailure hle hhour, if_neg hemail]
      exact hip
  | reset =>
    simp only [AttemptKind.reset]
    have hip : (l.reset (c.kind.ipKey c.request)).failures (kind.ipKey r) =
        if c.About kind r then [] else l.failures (kind.ipKey r) := by
      rw [AttemptLimiter.failures_reset, if_congr habout rfl rfl]
    split
    · rw [hip]
    · rw [AttemptLimiter.failures_reset, if_neg hemail, hip]

/-- What `countStep` makes of two lists agrees in a window where the lists do. -/
theorem inWindow_countStep {kind : AttemptKind} {r : AddrRequest} {times times' : List Nat}
    (c : LimiterCall) {now window : Nat} (h : inWindow now window times = inWindow now window times') :
    inWindow now window (countStep kind r times c) =
      inWindow now window (countStep kind r times' c) := by
  rw [countStep, countStep]
  split
  · cases c.act with
    | blocked => exact h
    | recordFailure =>
      rw [inWindow, List.filter_append, inWindow, List.filter_append]
      exact congrArg (· ++ _) h
    | reset => rfl
  · exact h

/-- After a run the limiter has, in the window, the failures counted for an address. -/
theorem inWindow_run (kind : AttemptKind) (r : AddrRequest) (calls : List LimiterCall)
    {later : Nat} (hle : ∀ c ∈ calls, c.now ≤ later) :
    inWindow later kind.rule.window ((AttemptLimiter.run P calls).failures (kind.ipKey r)) =
      inWindow later kind.rule.window (counted kind r calls) := by
  induction calls using List.reverseRecOn with
  | nil => rfl
  | append_singleton calls c ih =>
    have hc : c.now ≤ later := hle c (by simp)
    have hcalls := ih fun d hd => hle d (List.mem_append_left _ hd)
    rw [AttemptLimiter.run, counted, List.foldl_append, List.foldl_append]
    exact (inWindow_step _ kind r c hc).trans (inWindow_countStep c hcalls)

/-- **Whom the limiter refuses**: after any run, an address is blocked for a kind of attempts
exactly when enough of the failures counted for it are still in the window. -/
theorem blockedByIP_iff (kind : AttemptKind) (r : AddrRequest) (calls : List LimiterCall)
    {now : Nat} (hle : ∀ c ∈ calls, c.now ≤ now) :
    ((AttemptLimiter.run P calls).blocked now (kind.ipKey r) kind.rule.maxIP
        kind.rule.window).1 = true ↔
      kind.rule.maxIP ≤ (inWindow now kind.rule.window (counted kind r calls)).length := by
  rw [AttemptLimiter.blocked, decide_eq_true_eq, ← inWindow_run kind r calls hle]
  rfl

/-- A run that has recorded failures of other addresses only has not used up any of the
attempts of this one. -/
theorem counted_of_others {kind : AttemptKind} {r : AddrRequest} {calls : List LimiterCall}
    (hother : ∀ c ∈ calls, requestIP c.request ≠ requestIP r) : counted kind r calls = [] := by
  induction calls using List.reverseRecOn with
  | nil => rfl
  | append_singleton calls c ih =>
    have hc : ¬c.About kind r := fun h => hother c (by simp) h.2
    rw [counted, List.foldl_append]
    change countStep kind r (counted kind r calls) c = []
    rw [countStep, if_neg hc]
    exact ih fun d hd => hother d (List.mem_append_left _ hd)

/-- **Fresh budgets**: after any run of one peer whose headers never named the client that its
next request names, that request is not blocked by its address. -/
theorem fresh_budget (kind : AttemptKind) (calls : List LimiterCall) {now : Nat} {h : Headers}
    (hle : ∀ c ∈ calls, c.now ≤ now)
    (hpeer : ∀ c ∈ calls, ∃ h', c.request = served accepts remote h' ∧
      ¬SameClient accepts remote h' h) :
    ((AttemptLimiter.run P calls).blocked now (kind.ipKey (served accepts remote h))
      kind.rule.maxIP kind.rule.window).1 = false := by
  have hother : ∀ c ∈ calls, requestIP c.request ≠ requestIP (served accepts remote h) := by
    intro c hc heq
    obtain ⟨h', hserved, hno⟩ := hpeer c hc
    rw [hserved] at heq
    exact hno ((requestIP_served_iff h' h).mp heq)
  have hmax : 0 < kind.rule.maxIP := by cases kind <;> decide
  rw [← Bool.not_eq_true, blockedByIP_iff kind _ calls hle, counted_of_others hother]
  exact Nat.not_le.mpr hmax

end E2Mail.Backend
