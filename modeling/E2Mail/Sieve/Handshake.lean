import E2Mail.Sieve.Client

/-!
# No credentials before the handshake

* `On` — the events of one connection whose writes are of a kind; each method of the
  client emits only such events.
* `Shape` — how a `Dial` can go: it stops with an error before the credentials are
  used, or it has behind it an accepted STARTTLS, a handshake and an exchange of
  capabilities that ended with an OK.
* `dial_guarded` — the property of every `Dial` with every server, and that what comes
  after the handshake depends on nothing from before it.
-/

namespace E2Mail.ManageSieve

open Lib Lib.Effect

variable {L : TextLib} {κ : Type} {tls : Bool} {writes : Text → Prop}

/-! ## What the methods emit -/

/-- The event is one of a connection, and if it is a write, of the kind. -/
def On (tls : Bool) (writes : Text → Prop) : Event → Prop
  | .wrote t bytes => t = tls ∧ writes bytes
  | .received t _ => t = tls
  | .readError t => t = tls
  | .handshake _ => False
  | .closed => False

theorem On.mono {writes' : Text → Prop} (h : ∀ bytes, writes bytes → writes' bytes) (e : Event) :
    On tls writes e → On tls writes' e := by
  cases e with
  | wrote t bytes => exact fun ho => ⟨ho.1, h bytes ho.2⟩
  | received t line => exact id
  | readError t => exact id
  | handshake ok => exact id
  | closed => exact id

/-- The connection in use is the plain one, or the one behind the handshake. -/
def OnConn (tls : Bool) (c : Client) : Prop := c.conn.isTLS = tls

theorem emits_writeRaw {bytes : Text} (h : writes bytes) :
    Emits (OnConn tls) (On tls writes) (writeRaw bytes) := by
  intro c hc
  rw [writeRaw]
  split
  · exact ⟨hc, List.forall_mem_singleton.mpr ⟨hc, h⟩⟩
  · exact ⟨hc, List.forall_mem_singleton.mpr ⟨hc, h⟩⟩

theorem emits_cline : Emits (OnConn tls) (On tls writes) cline := by
  intro c hc
  rw [cline]
  split
  · exact ⟨hc, List.forall_mem_singleton.mpr hc⟩
  · exact ⟨hc, List.forall_mem_singleton.mpr hc⟩
  · exact ⟨hc, List.forall_mem_singleton.mpr hc⟩

theorem emits_turns : Emits (OnConn tls) (On tls writes) turns :=
  Emits.get.bind fun _ => Emits.pure _

theorem emits_overLines {readErr : String} {body : Text → κ → Net (κ ⊕ Unit)}
    (hbody : ∀ line k, Emits (OnConn tls) (On tls writes) (body line k)) (n : Nat) :
    ∀ k, Emits (OnConn tls) (On tls writes) (overLines readErr body n k) := by
  induction n with
  | zero => exact fun k => Emits.fail _
  | succ n ih =>
    intro k
    refine emits_cline.mapError.bind fun line => Emits.ite (ih k) ?_
    apply (hbody (trimSpace line) k).bind
    rintro (k' | _)
    · exact ih k'
    · exact Emits.pure _

theorem conn_parseCapLine (c : Client) (line : Text) : (parseCapLine L c line).conn = c.conn := by
  rw [parseCapLine]
  split
  · rfl
  · split
    · rfl
    · rfl
  · rfl

theorem emits_parseCapLine (line : Text) :
    Emits (OnConn tls) (On tls writes) (Effect.modify fun c => parseCapLine L c line : Net Unit) := by
  apply Emits.modify
  intro c hc
  rw [OnConn, conn_parseCapLine]
  exact hc

theorem emits_untilFinal (line : Text) (k : Unit) :
    Emits (OnConn tls) (On tls writes) (untilFinal L (parseCapLine L) line k) := by
  apply Emits.ite
  · exact Emits.ite (Emits.fail _) (Emits.pure _)
  · exact (emits_parseCapLine line).bind fun _ => Emits.pure _

/-- Reading capabilities writes nothing. -/
theorem emits_readCapabilities :
    Emits (OnConn tls) (On tls writes) (readUntilFinal L (parseCapLine L)) :=
  emits_turns.bind fun n => emits_overLines emits_untilFinal n ()

/-- What `Capability` writes. -/
def capabilityLine : Text := "CAPABILITY".toList ++ crlf

/-- What `doSTARTTLS` writes. -/
def starttlsLine : Text := "STARTTLS".toList ++ crlf

/-- What `Close` writes. -/
def logoutLine : Text := "LOGOUT".toList ++ crlf

theorem emits_capability : Emits (OnConn tls) (On tls (· = capabilityLine)) (capability L) := by
  have hwrite : Emits (OnConn tls) (On tls (· = capabilityLine)) (cfmtf "CAPABILITY".toList) :=
    emits_writeRaw rfl
  exact hwrite.bind fun _ => emits_readCapabilities

theorem emits_readPostTLSCapabilities :
    Emits (OnConn tls) (On tls (· = capabilityLine)) (readPostTLSCapabilities L) := by
  apply emits_readCapabilities.attempt.bind
  rintro (err | _)
  · exact emits_capability.mapError
  · exact Emits.get.bind fun c => Emits.ite (Emits.pure _) emits_capability

theorem emits_authLine (line : Text) (k : κ) :
    Emits (OnConn tls) (On tls fun _ => True) (authLine L line k) := by
  apply Emits.ite
  · exact Emits.ite (Emits.fail _) (Emits.pure _)
  · exact (emits_parseCapLine line).bind fun _ => Emits.pure _

theorem emits_tryAuthenticate (mech username password : Text) :
    Emits (OnConn tls) (On tls fun _ => True) (tryAuthenticate L mech username password) := by
  apply Emits.ite
  · refine (emits_writeRaw trivial).bind fun _ => emits_turns.bind fun n => ?_
    apply emits_overLines
    intro line step
    apply Emits.ite
    · match step with
      | 0 => exact (emits_writeRaw trivial).bind fun _ => Emits.pure _
      | 1 => exact (emits_writeRaw trivial).bind fun _ => Emits.pure _
      | _ + 2 => exact Emits.fail _
    · exact emits_authLine line step
  · refine (emits_writeRaw trivial).bind fun _ => emits_turns.bind fun n => ?_
    apply emits_overLines
    intro line k
    exact Emits.ite ((emits_writeRaw trivial).bind fun _ => Emits.pure _) (emits_authLine line k)

theorem emits_tryEach (password : Text) (attempts : List (Text × Text)) :
    ∀ lastErr, Emits (OnConn tls) (On tls fun _ => True) (tryEach L password attempts lastErr) := by
  induction attempts with
  | nil => exact fun _ => Emits.fail _
  | cons a rest ih =>
    intro lastErr
    apply (emits_tryAuthenticate a.2 a.1 password).attempt.bind
    rintro (err | _)
    · exact ih err
    · exact Emits.pure _

/-- The authentication stays on its connection. -/
theorem emits_authenticate (username password : Text) :
    Emits (OnConn tls) (On tls fun _ => True) (authenticate L username password) :=
  Emits.ite (Emits.fail _) (Emits.get.bind fun _ => emits_tryEach password _ _)

/-! ## What has been read when a method succeeds -/

/-- A final line that is no failure. -/
def IsOK (L : TextLib) (line : Text) : Prop :=
  isFinalLine L (trimSpace line) = true ∧ isFailureLine L (trimSpace line) = false

/-- The events end with an OK of the server. -/
def EndsOK (L : TextLib) (tls : Bool) (events : List Event) : Prop :=
  ∃ before line, events = before ++ [.received tls line] ∧ IsOK L line

theorem EndsOK.append {before events : List Event} (h : EndsOK L tls events) :
    EndsOK L tls (before ++ events) := by
  obtain ⟨es, line, rfl, hok⟩ := h
  exact ⟨before ++ es, line, (List.append_assoc _ _ _).symm, hok⟩

theorem cline_ok {c : Client} {line : Text} (hc : OnConn tls c)
    (h : (cline c).result = .ok line) : (cline c).events = [.received tls line] := by
  rw [cline] at h ⊢
  split at h
  · cases h
  · cases h
  · cases h
    rw [hc]

/-- A loop over lines that succeeds has just read a line at which its body succeeds in silence. -/
theorem overLines_ok {readErr : String} {body : Text → κ → Net (κ ⊕ Unit)}
    (hkeep : ∀ line k, Emits (OnConn tls) (On tls writes) (body line k))
    (hbody : ∀ line k c u, (body (trimSpace line) k c).result = .ok (.inr u) →
      IsOK L line ∧ (body (trimSpace line) k c).events = []) (n : Nat) :
    ∀ k c, OnConn tls c → (overLines readErr body n k c).result = .ok () →
      EndsOK L tls (overLines readErr body n k c).events := by
  induction n with
  | zero =>
    intro k c hc h
    cases h
  | succ n ih =>
    intro k c hc h
    obtain ⟨line, hline, hrest, hevents⟩ := bind_eq_ok h
    have hread : (cline c).result = .ok line := by
      cases hres : (cline c).result with
      | error err =>
        rw [mapError, hres] at hline
        cases hline
      | ok l =>
        rw [mapError, hres] at hline
        exact hline
    have hkeep' : Emits (OnConn tls) (On tls writes) cline := emits_cline
    have hc' := (hkeep' c hc).1
    rw [overLines, hevents]
    split at hrest
    next hblank =>
      rw [if_pos hblank]
      exact (ih k _ hc' hrest).append
    next hblank =>
      rw [if_neg hblank]
      obtain ⟨turn, hturn, hnext, hevents'⟩ := bind_eq_ok hrest
      rw [hevents']
      cases turn with
      | inl k' =>
        have hc'' := (hkeep (trimSpace line) k _ hc').1
        exact ((ih k' _ hc'' hnext).append).append
      | inr u =>
        obtain ⟨hok, hsilent⟩ := hbody line k _ u hturn
        have hread' := cline_ok hc hread
        rw [hsilent]
        change EndsOK L tls ((cline c).events ++ ([] ++ []))
        rw [hread']
        exact ⟨[], line, rfl, hok⟩

theorem readCapabilities_ok {c : Client} (hc : OnConn tls c)
    (h : (readUntilFinal L (parseCapLine L) c).result = .ok ()) :
    EndsOK L tls (readUntilFinal L (parseCapLine L) c).events := by
  have hkeep : ∀ line k, Emits (OnConn tls) (On tls fun _ => False)
      (untilFinal L (parseCapLine L) line k) := emits_untilFinal
  refine overLines_ok hkeep (fun line k d u hok => ?_) _ () c hc h
  rw [untilFinal] at hok ⊢
  split at hok
  next hfinal =>
    split at hok
    next => cases hok
    next hfailure =>
      rw [if_pos hfinal, if_neg hfailure]
      exact ⟨⟨hfinal, by simpa using hfailure⟩, rfl⟩
  next => cases hok

theorem capability_ok {c : Client} (hc : OnConn tls c) (h : (capability L c).result = .ok ()) :
    EndsOK L tls (capability L c).events := by
  obtain ⟨u, hwrite, hread, hevents⟩ := bind_eq_ok h
  have hkeep : Emits (OnConn tls) (On tls fun _ => True) (cfmtf "CAPABILITY".toList) :=
    emits_writeRaw trivial
  have hc' := (hkeep c hc).1
  rw [capability, hevents]
  exact (readCapabilities_ok hc' hread).append

theorem mapError_ok {α : Type} {m : Net α} {g : String → String} {c : Client} {a : α}
    (h : (m.mapError g c).result = .ok a) : (m c).result = .ok a := by
  cases hres : (m c).result with
  | error err =>
    rw [mapError, hres] at h
    cases h
  | ok b =>
    rw [mapError, hres] at h
    exact h

/-- The exchange of capabilities succeeds on an OK, to the last of what was asked. -/
theorem readPostTLSCapabilities_ok {c : Client} (hc : OnConn tls c)
    (h : (readPostTLSCapabilities L c).result = .ok ()) :
    EndsOK L tls (readPostTLSCapabilities L c).events := by
  obtain ⟨pushed, hpushed, hnext, hevents⟩ := bind_eq_ok h
  have hkeep : Emits (OnConn tls) (On tls fun _ => False) (readUntilFinal L (parseCapLine L)) :=
    emits_readCapabilities
  have hc' := (hkeep c hc).1
  rw [readPostTLSCapabilities, hevents]
  cases pushed with
  | error err => exact (capability_ok hc' (mapError_ok hnext)).append
  | ok u =>
    obtain ⟨d, hd, hrest, hevents'⟩ := bind_eq_ok hnext
    rw [hevents']
    split at hrest
    next hsasl =>
      -- the server has sent its capabilities by itself
      have hok : (readUntilFinal L (parseCapLine L) c).result = .ok () := by
        exact Except.ok.inj hpushed
      rw [if_pos hsasl]
      change EndsOK L tls ((readUntilFinal L (parseCapLine L) c).events ++ ([] ++ []))
      rw [List.append_nil, List.append_nil]
      exact readCapabilities_ok hc hok
    next hsasl =>
      rw [if_neg hsasl]
      have hd' : OnConn tls (Effect.get (readUntilFinal L (parseCapLine L) c).state :
          Outcome Client String Event Client).state := hc'
      exact ((capability_ok hd' hrest).append).append

/-! ## The handshake -/

/-- What happens up to the handshake, when it is not reached or fails. -/
def Early (e : Event) : Prop := On false (· = starttlsLine) e ∨ e = .handshake false

/-- The reply to STARTTLS that lets the client go on. -/
def Accepts (L : TextLib) (reply : Text) : Prop :=
  "OK".toList.isPrefixOf (toUpper L (trimSpace reply)) = true

theorem writeRaw_events (bytes : Text) (c : Client) :
    (writeRaw bytes c).events = [.wrote c.conn.isTLS bytes] := by
  rw [writeRaw]
  split <;> rfl

/-- The handshake either fails, and nothing changes, or puts its own connection in place. -/
theorem handshake_cases (cfg : Config) (s : Server) (c : Client) :
    (∃ err, handshake cfg s c = ⟨.error err, c, [.handshake false]⟩) ∨
      ∃ peer, s.handshake (sieveTLSConfig cfg) = .ok peer ∧
        handshake cfg s c = ⟨.ok (), { c with conn := ⟨true, peer⟩ }, [.handshake true]⟩ := by
  cases hs : s.handshake (sieveTLSConfig cfg) with
  | error err => exact .inl ⟨_, by rw [handshake, hs]⟩
  | ok peer => exact .inr ⟨peer, rfl, by rw [handshake, hs]⟩

/-- A STARTTLS that does not lead to a handshake, and one that does. -/
theorem doSTARTTLS_cases (cfg : Config) (s : Server) {c : Client} (hc : OnConn false c) :
    ((∃ err, (doSTARTTLS L cfg s c).result = .error err) ∧ OnConn false (doSTARTTLS L cfg s c).state ∧
        ∀ e ∈ (doSTARTTLS L cfg s c).events, Early e) ∨
      ∃ reply peer, s.handshake (sieveTLSConfig cfg) = .ok peer ∧ Accepts L reply ∧
        (doSTARTTLS L cfg s c).result = .ok () ∧
        (doSTARTTLS L cfg s c).state.conn = ⟨true, peer⟩ ∧
        (doSTARTTLS L cfg s c).events =
          [.wrote false starttlsLine, .received false reply, .handshake true] := by
  have hwrite : Emits (OnConn false) (On false (· = starttlsLine))
      ((cfmtf "STARTTLS".toList).mapError ("STARTTLS write failed: " ++ ·)) := by
    apply Emits.mapError
    exact emits_writeRaw rfl
  obtain ⟨hc₁, hevents₁⟩ := hwrite c hc
  rw [doSTARTTLS]
  cases hw : (((cfmtf "STARTTLS".toList).mapError ("STARTTLS write failed: " ++ ·)) c).result with
  | error err =>
    rw [bind_error hw]
    exact .inl ⟨⟨err, rfl⟩, hc₁, fun e he => .inl (hevents₁ e he)⟩
  | ok u =>
    rw [bind_ok hw]
    generalize hd : (((cfmtf "STARTTLS".toList).mapError ("STARTTLS write failed: " ++ ·)) c).state
      = d at hc₁ ⊢
    have hread : Emits (OnConn false) (On false (· = starttlsLine))
        (cline.mapError ("STARTTLS read failed: " ++ ·)) := emits_cline.mapError
    obtain ⟨hc₂, hevents₂⟩ := hread d hc₁
    cases hl : (cline.mapError ("STARTTLS read failed: " ++ ·) d).result with
    | error err =>
      rw [bind_error hl]
      refine .inl ⟨⟨err, rfl⟩, hc₂, fun e he => .inl ?_⟩
      exact (List.mem_append.mp he).elim (hevents₁ e) (hevents₂ e)
    | ok reply =>
      rw [bind_ok hl]
      generalize hd' : (cline.mapError ("STARTTLS read failed: " ++ ·) d).state = d' at hc₂ ⊢
      have hquiet : ∀ e ∈ (((cfmtf "STARTTLS".toList).mapError ("STARTTLS write failed: " ++ ·))
          c).events ++ (cline.mapError ("STARTTLS read failed: " ++ ·) d).events, Early e :=
        fun e he => .inl ((List.mem_append.mp he).elim (hevents₁ e) (hevents₂ e))
      split
      next haccept =>
        rcases handshake_cases cfg s d' with ⟨err, hh⟩ | ⟨peer, hpeer, hh⟩
        · rw [hh]
          refine .inl ⟨⟨err, rfl⟩, hc₂, fun e he => ?_⟩
          rw [← List.append_assoc] at he
          rcases List.mem_append.mp he with he | he
          · exact hquiet e he
          · exact .inr (List.mem_singleton.mp he)
        · rw [hh]
          have hline := cline_ok hc₁ (mapError_ok hl)
          have hwrote := writeRaw_events ("STARTTLS".toList ++ crlf) c
          rw [hc] at hwrote
          refine .inr ⟨reply, peer, hpeer, haccept, rfl, rfl, ?_⟩
          change (writeRaw ("STARTTLS".toList ++ crlf) c).events ++
            ((cline d).events ++ [.handshake true]) = _
          rw [hwrote, hline]
          rfl
      next =>
        refine .inl ⟨⟨_, rfl⟩, hc₂, fun e he => hquiet e ?_⟩
        change e ∈ _ ++ (_ ++ []) at he
        rwa [List.append_nil] at he

/-! ## Connecting -/

/-- The client behind a handshake: it has kept nothing from before it. -/
def fresh (peer : Peer) : Client := ⟨⟨true, peer⟩, fun _ => none, [], false⟩

/-- What `Dial` does behind the handshake. -/
def afterTLS (L : TextLib) (cfg : Config) : Net Unit := do
  (readPostTLSCapabilities L).mapError
    ("sieve post-STARTTLS capability failed " ++ cfg.addr ++ ": " ++ ·)
  authenticate L cfg.username cfg.password

/-- Behind the handshake, either the exchange of capabilities fails and with it the
connection, or it ends with an OK before the authentication begins. -/
theorem afterTLS_cases (cfg : Config) {c : Client} (hc : OnConn true c) :
    ((∃ err, (afterTLS L cfg c).result = .error err) ∧
        ∀ e ∈ (afterTLS L cfg c).events, On true (· = capabilityLine) e) ∨
      ∃ exchange auth, (afterTLS L cfg c).events = exchange ++ auth ∧ EndsOK L true exchange ∧
        (∀ e ∈ exchange, On true (· = capabilityLine) e) ∧ ∀ e ∈ auth, On true (fun _ => True) e := by
  have hpost : Emits (OnConn true) (On true (· = capabilityLine))
      ((readPostTLSCapabilities L).mapError
        ("sieve post-STARTTLS capability failed " ++ cfg.addr ++ ": " ++ ·)) :=
    emits_readPostTLSCapabilities.mapError
  obtain ⟨hc', hexchange⟩ := hpost c hc
  rw [afterTLS]
  cases hres : ((readPostTLSCapabilities L).mapError
      ("sieve post-STARTTLS capability failed " ++ cfg.addr ++ ": " ++ ·) c).result with
  | error err =>
    rw [bind_error hres]
    exact .inl ⟨⟨err, rfl⟩, hexchange⟩
  | ok u =>
    rw [bind_ok hres]
    refine .inr ⟨_, _, rfl, ?_, hexchange, ?_⟩
    · exact readPostTLSCapabilities_ok hc (mapError_ok hres)
    · exact (emits_authenticate cfg.username cfg.password _ hc').2

/-- **The two ways to connect**: `Dial` fails before the handshake is done, or it goes on
behind it, as it would with any other past. -/
theorem connect_cases (cfg : Config) (s : Server) {c : Client} (hc : OnConn false c) :
    ((∃ err, (connect L cfg s c).result = .error err) ∧ OnConn false (connect L cfg s c).state ∧
        ∀ e ∈ (connect L cfg s c).events, Early e) ∨
      ∃ before reply peer, s.handshake (sieveTLSConfig cfg) = .ok peer ∧ Accepts L reply ∧
        (∀ e ∈ before, On false (fun _ => False) e) ∧
        connect L cfg s c = ⟨(afterTLS L cfg (fresh peer)).result,
          (afterTLS L cfg (fresh peer)).state,
          before ++ .wrote false starttlsLine :: .received false reply :: .handshake true ::
            (afterTLS L cfg (fresh peer)).events⟩ := by
  have hbanner : Emits (OnConn false) (On false fun _ => False)
      ((readBanner L).mapError ("sieve banner failed " ++ cfg.addr ++ ": " ++ ·)) :=
    emits_readCapabilities.mapError
  obtain ⟨hc₁, hgreeting⟩ := hbanner c hc
  have hearly : ∀ e ∈ ((readBanner L).mapError ("sieve banner failed " ++ cfg.addr ++ ": " ++ ·)
      c).events, Early e := fun e he => .inl (On.mono (fun _ => False.elim) e (hgreeting e he))
  rw [connect]
  cases hb : ((readBanner L).mapError ("sieve banner failed " ++ cfg.addr ++ ": " ++ ·)
      c).result with
  | error err =>
    rw [bind_error hb]
    exact .inl ⟨⟨err, rfl⟩, hc₁, hearly⟩
  | ok u =>
    rw [bind_ok hb]
    generalize ((readBanner L).mapError ("sieve banner failed " ++ cfg.addr ++ ": " ++ ·)
      c).state = d at hc₁ ⊢
    have hplain : ¬d.conn.isTLS = true := by
      rw [hc₁]
      exact Bool.false_ne_true
    rw [get_bind, if_neg hplain, secure, bind_assoc, get_bind]
    by_cases hcap : d.tlsCap = true
    · rw [if_pos hcap, bind_assoc]
      rcases doSTARTTLS_cases (L := L) cfg s hc₁ with
        ⟨⟨err, herr⟩, hstate, hevents⟩ | ⟨reply, peer, hpeer, haccept, hok, hconn, hevents⟩
      · have hm : ((doSTARTTLS L cfg s).mapError ("sieve STARTTLS failed " ++ cfg.addr ++ ": " ++ ·)
            d).result = .error ("sieve STARTTLS failed " ++ cfg.addr ++ ": " ++ err) := by
          rw [mapError, herr]
          rfl
        rw [bind_error hm]
        refine .inl ⟨⟨_, rfl⟩, hstate, fun e he => ?_⟩
        exact (List.mem_append.mp he).elim (hearly e) (hevents e)
      · have hm : ((doSTARTTLS L cfg s).mapError ("sieve STARTTLS failed " ++ cfg.addr ++ ": " ++ ·)
            d).result = .ok () := by
          rw [mapError, hok]
          rfl
        -- the capabilities from before the handshake are dropped here
        have hfresh : (⟨(doSTARTTLS L cfg s d).state.conn, fun _ => none, [], false⟩ : Client) =
            fresh peer := by rw [hconn, fresh]
        rw [bind_ok hm, bind_assoc, modify_bind]
        refine .inr ⟨_, reply, peer, hpeer, haccept, hgreeting, ?_⟩
        change Outcome.mk
          (afterTLS L cfg ⟨(doSTARTTLS L cfg s d).state.conn, fun _ => none, [], false⟩).result
          (afterTLS L cfg ⟨(doSTARTTLS L cfg s d).state.conn, fun _ => none, [], false⟩).state
          (_ ++ ((doSTARTTLS L cfg s d).events ++
            (afterTLS L cfg ⟨(doSTARTTLS L cfg s d).state.conn, fun _ => none, [], false⟩).events)) = _
        rw [hfresh, hevents]
        rfl
    · rw [if_neg hcap]
      refine .inl ⟨⟨_, rfl⟩, hc₁, fun e he => hearly e ?_⟩
      change e ∈ _ ++ [] at he
      rwa [List.append_nil] at he

theorem orClose_ok {m : Net Unit} {c : Client} (h : (m c).result = .ok ()) :
    orClose m c = ⟨.ok (), (m c).state, (m c).events ++ []⟩ := by
  have hm : (m.attempt c).result = .ok (.ok ()) := by rw [attempt, h]
  rw [orClose, bind_ok hm]
  rfl

/-- A failed step says goodbye and closes the connection it was on. -/
theorem orClose_error {m : Net Unit} {c : Client} {err : String} (h : (m c).result = .error err) :
    (orClose m c).result = .error err ∧
      (orClose m c).events =
        (m c).events ++ [.wrote (m c).state.conn.isTLS logoutLine, .closed] := by
  have hm : (m.attempt c).result = .ok (.error err) := by rw [attempt, h]
  have hlogout : ((cfmtf "LOGOUT".toList).attempt (m c).state).events =
      [.wrote (m c).state.conn.isTLS logoutLine] := writeRaw_events _ _
  rw [orClose, bind_ok hm]
  refine ⟨rfl, ?_⟩
  change (m c).events ++ (((cfmtf "LOGOUT".toList).attempt (m c).state).events ++ [.closed] ++ []) = _
  rw [hlogout]
  rfl

/-- Closing looks at how a step ended, not at what went before it. -/
theorem orClose_append {m m' : Net Unit} {c c' : Client} {before : List Event}
    (h : m c = ⟨(m' c').result, (m' c').state, before ++ (m' c').events⟩) :
    (orClose m c).result = (orClose m' c').result ∧
      (orClose m c).events = before ++ (orClose m' c').events := by
  cases hres : (m' c').result with
  | ok u =>
    have hm : (m c).result = .ok () := by rw [h, hres]
    rw [orClose_ok hm, orClose_ok hres, h]
    exact ⟨rfl, by rw [List.append_assoc]⟩
  | error err =>
    have hm : (m c).result = .error err := by rw [h, hres]
    obtain ⟨hr, he⟩ := orClose_error hm
    obtain ⟨hr', he'⟩ := orClose_error hres
    rw [hr, hr', he, he', h]
    exact ⟨rfl, by rw [List.append_assoc]⟩

/-- The writes of a `Dial` without the user's name and password. -/
def Plainly (bytes : Text) : Prop :=
  bytes = starttlsLine ∨ bytes = capabilityLine ∨ bytes = logoutLine

/-- **The two ways of a `Dial`**, with the closing of the connection. -/
theorem dial_cases (cfg : Config) (s : Server) :
    ((∃ err, (dial L cfg s).result = .error err) ∧
        ∀ e ∈ (dial L cfg s).events, Early e ∨ e = .wrote false logoutLine ∨ e = .closed) ∨
      ∃ before reply peer, s.handshake (sieveTLSConfig cfg) = .ok peer ∧ Accepts L reply ∧
        (∀ e ∈ before, On false (fun _ => False) e) ∧
        (dial L cfg s).result = (orClose (afterTLS L cfg) (fresh peer)).result ∧
        (dial L cfg s).events =
          before ++ .wrote false starttlsLine :: .received false reply :: .handshake true ::
            (orClose (afterTLS L cfg) (fresh peer)).events := by
  rw [dial]
  split
  · exact .inl ⟨⟨_, rfl⟩, fun e he => absurd he List.not_mem_nil⟩
  · split
    · exact .inl ⟨⟨_, rfl⟩, fun e he => absurd he List.not_mem_nil⟩
    · have hc : OnConn false (newClient s) := rfl
      rcases connect_cases (L := L) cfg s hc with
        ⟨⟨err, herr⟩, hplain, hevents⟩ | ⟨before, reply, peer, hpeer, haccept, hquiet, hconnect⟩
      · obtain ⟨hres, hclose⟩ := orClose_error herr
        refine .inl ⟨⟨err, hres⟩, fun e he => ?_⟩
        rw [hclose, hplain] at he
        rcases List.mem_append.mp he with he | he
        · exact .inl (hevents e he)
        · simpa using Or.inr he
      · have happ : before ++ .wrote false starttlsLine :: .received false reply ::
            .handshake true :: (afterTLS L cfg (fresh peer)).events =
            (before ++ [.wrote false starttlsLine, .received false reply, .handshake true]) ++
              (afterTLS L cfg (fresh peer)).events := by
          rw [List.append_assoc]
          rfl
        rw [happ] at hconnect
        obtain ⟨hres, hev⟩ := orClose_append hconnect
        refine .inr ⟨before, reply, peer, hpeer, haccept, hquiet, hres, ?_⟩
        rw [hev, List.append_assoc]
        rfl

/-! ## The guarantee -/

/-- The credentials were kept until the server had accepted STARTTLS, the handshake had
succeeded, and the exchange of capabilities behind it had ended with an OK. -/
def Secured (L : TextLib) (events : List Event) : Prop :=
  ∃ before reply exchange rest,
    events = before ++ .wrote false starttlsLine :: .received false reply :: .handshake true ::
      (exchange ++ rest) ∧
    Accepts L reply ∧ EndsOK L true exchange ∧
    (∀ e ∈ before, On false (fun _ => False) e) ∧
    (∀ e ∈ exchange, On true (· = capabilityLine) e) ∧
    ∀ e ∈ rest, On true (fun _ => True) e ∨ e = .closed

/-- The connection has failed, and nothing on it came from the credentials. -/
def FailedPlainly (d : Outcome Client String Event Unit) : Prop :=
  (∃ err, d.result = .error err) ∧ ∀ tls bytes, .wrote tls bytes ∈ d.events → Plainly bytes

/-- What happens after the handshake has succeeded. -/
def afterHandshake : List Event → List Event
  | [] => []
  | .handshake true :: events => events
  | _ :: events => afterHandshake events

theorem afterHandshake_append {before events : List Event} (h : .handshake true ∉ before) :
    afterHandshake (before ++ .handshake true :: events) = events := by
  induction before with
  | nil => rfl
  | cons e before ih =>
    rw [List.mem_cons, not_or] at h
    obtain ⟨hne, hrest⟩ := h
    rw [List.cons_append, afterHandshake]
    · exact ih hrest
    · rintro rfl
      exact hne rfl

/-- Before the handshake there is no handshake. -/
theorem handshake_not_mem {before : List Event} {reply : Text}
    (h : ∀ e ∈ before, On false (fun _ => False) e) :
    Event.handshake true ∉ before ++ [.wrote false starttlsLine, .received false reply] := by
  intro hmem
  rcases List.mem_append.mp hmem with hmem | hmem
  · exact h _ hmem
  · simp at hmem

theorem emits_afterTLS (cfg : Config) :
    Emits (OnConn true) (On true fun _ => True) (afterTLS L cfg) :=
  (emits_readPostTLSCapabilities.mapError.mono (On.mono fun _ _ => trivial)).bind fun _ =>
    emits_authenticate cfg.username cfg.password

/-- Behind the handshake everything is on its connection. -/
theorem on_orClose_afterTLS (cfg : Config) (peer : Peer) :
    ∀ e ∈ (orClose (afterTLS L cfg) (fresh peer)).events, On true (fun _ => True) e ∨ e = .closed := by
  obtain ⟨htls, hevents⟩ := emits_afterTLS (L := L) cfg (fresh peer) rfl
  intro e he
  cases hr : (afterTLS L cfg (fresh peer)).result with
  | ok u =>
    rw [orClose_ok hr, List.append_nil] at he
    exact .inl (hevents e he)
  | error err =>
    rw [(orClose_error hr).2, htls] at he
    rcases List.mem_append.mp he with he | he
    · exact .inl (hevents e he)
    · simp only [List.mem_cons, List.not_mem_nil, or_false] at he
      rcases he with rfl | rfl
      · exact .inl ⟨rfl, trivial⟩
      · exact .inr rfl

/-- A `Dial` behind a handshake has secured the credentials, or has not used them. -/
theorem secured_or_failed {cfg : Config} {d : Outcome Client String Event Unit} {reply : Text}
    {before : List Event} {peer : Peer} (haccept : Accepts L reply)
    (hquiet : ∀ e ∈ before, On false (fun _ => False) e)
    (hres : d.result = (orClose (afterTLS L cfg) (fresh peer)).result)
    (hev : d.events = before ++ .wrote false starttlsLine :: .received false reply ::
      .handshake true :: (orClose (afterTLS L cfg) (fresh peer)).events) :
    Secured L d.events ∨ FailedPlainly d := by
  have hc : OnConn true (fresh peer) := rfl
  have htls : OnConn true (afterTLS L cfg (fresh peer)).state := (emits_afterTLS cfg _ hc).1
  rcases afterTLS_cases (L := L) cfg hc with ⟨⟨err, herr⟩, hplain⟩ | ⟨exchange, auth, hsplit, hok, hex, hauth⟩
  · right
    obtain ⟨hr, he⟩ := orClose_error herr
    refine ⟨⟨err, hres.trans hr⟩, fun tls bytes hmem => ?_⟩
    rw [hev, he, htls] at hmem
    rcases List.mem_append.mp hmem with hmem | hmem
    · exact (hquiet _ hmem).2.elim
    · simp only [List.mem_cons, List.mem_append, Event.wrote.injEq, reduceCtorEq, false_or,
        List.not_mem_nil, or_false] at hmem
      rcases hmem with ⟨-, rfl⟩ | hmem | ⟨-, rfl⟩
      · exact .inl rfl
      · exact .inr (.inl (hplain _ hmem).2)
      · exact .inr (.inr rfl)
  · left
    refine ⟨before, reply, exchange, ?_⟩
    cases hr : (afterTLS L cfg (fresh peer)).result with
    | ok u =>
      refine ⟨auth, ?_, haccept, hok, hquiet, hex, fun e he => .inl (hauth e he)⟩
      rw [hev, orClose_ok hr, hsplit, List.append_nil]
    | error err =>
      refine ⟨auth ++ [.wrote true logoutLine, .closed], ?_, haccept, hok, hquiet, hex, fun e he => ?_⟩
      · rw [hev, (orClose_error hr).2, htls, hsplit, List.append_assoc]
      · rcases List.mem_append.mp he with he | he
        · exact .inl (hauth e he)
        · simp only [List.mem_cons, List.not_mem_nil, or_false] at he
          rcases he with rfl | rfl
          · exact .inl ⟨rfl, trivial⟩
          · exact .inr rfl

/-- **No credentials before the handshake**: with every server, the plain connection carries
STARTTLS and LOGOUT only; the credentials are kept until STARTTLS is accepted, the handshake has
succeeded and the exchange of capabilities behind it has ended with an OK, or else the
connection fails without them; and what follows the handshake, the mechanisms with it, is
the same whatever the server has sent before. -/
theorem dial_guarded (L : TextLib) (cfg : Config) (s : Server) :
    (∀ bytes, .wrote false bytes ∈ (dial L cfg s).events →
        bytes = starttlsLine ∨ bytes = logoutLine) ∧
      (Secured L (dial L cfg s).events ∨ FailedPlainly (dial L cfg s)) ∧
      ∀ s' : Server, s'.handshake (sieveTLSConfig cfg) = s.handshake (sieveTLSConfig cfg) →
        .handshake true ∈ (dial L cfg s).events → .handshake true ∈ (dial L cfg s').events →
          afterHandshake (dial L cfg s').events = afterHandshake (dial L cfg s).events ∧
            (dial L cfg s').result = (dial L cfg s).result := by
  rcases dial_cases (L := L) cfg s with
    ⟨herr, hearly⟩ | ⟨before, reply, peer, hpeer, haccept, hquiet, hres, hev⟩
  · -- no handshake has succeeded
    refine ⟨fun bytes hmem => ?_, .inr ⟨herr, fun tls bytes hmem => ?_⟩, fun s' _ hmem => ?_⟩
    · rcases hearly _ hmem with (hon | hno) | hlogout | hclosed
      · exact .inl hon.2
      · cases hno
      · exact .inr (Event.wrote.inj hlogout).2
      · cases hclosed
    · rcases hearly _ hmem with (hon | hno) | hlogout | hclosed
      · exact .inl hon.2
      · cases hno
      · exact .inr (.inr (Event.wrote.inj hlogout).2)
      · cases hclosed
    · rcases hearly _ hmem with (hon | hno) | hlogout | hclosed
      · exact hon.elim
      · cases hno
      · cases hlogout
      · cases hclosed
  · refine ⟨fun bytes hmem => ?_, secured_or_failed haccept hquiet hres hev, ?_⟩
    · rw [hev] at hmem
      rcases List.mem_append.mp hmem with hmem | hmem
      · exact (hquiet _ hmem).2.elim
      · simp only [List.mem_cons, Event.wrote.injEq, reduceCtorEq, false_or, true_and] at hmem
        rcases hmem with hstarttls | hmem
        · exact .inl hstarttls
        · rcases on_orClose_afterTLS cfg peer _ hmem with hon | hclosed
          · cases hon.1
          · cases hclosed
    · intro s' hsame _ hmem'
      rcases dial_cases (L := L) cfg s' with
        ⟨-, hearly⟩ | ⟨before', reply', peer', hpeer', -, hquiet', hres', hev'⟩
      · rcases hearly _ hmem' with (hon | hno) | hlogout | hclosed
        · exact hon.elim
        · cases hno
        · cases hlogout
        · cases hclosed
      · obtain rfl : peer' = peer := Except.ok.inj (hpeer'.symm.trans (hsame.trans hpeer))
        have hcut : ∀ (b : List Event) (r : Text) (es : List Event),
            b ++ .wrote false starttlsLine :: .received false r :: .handshake true :: es =
              (b ++ [.wrote false starttlsLine, .received false r]) ++ .handshake true :: es :=
          fun b r es => by
            rw [List.append_assoc]
            rfl
        rw [hev, hev', hcut, hcut, afterHandshake_append (handshake_not_mem hquiet),
          afterHandshake_append (handshake_not_mem hquiet')]
        exact ⟨rfl, hres'.trans hres.symm⟩

end E2Mail.ManageSieve
