import E2Mail.Backend.Connections

/-!
# What outlives a session

`Logout` stops the session's listeners and closes its pools before it deletes the session. The
other two ends of a session, the cleaner and the look at the time in `Get`, only take it out of
the store.

* `Server.Tidy` — every running listener and every open pool belongs to a session in the store;
* `ConnOp.ends`, `ConnOp.starts` — what a call does to the sessions, said once for every call;
* `Clean` — a call ends no session that has something running, and starts nothing for a
  session that is gone;
* `tidy_iff_clean` — the server stays tidy in exactly the runs whose calls are all clean;
* `clean_of_logout` — the deletion in `Logout` is clean, unless something was started for the
  session since its listeners and its pools were closed.
-/

namespace E2Mail.Backend

open Lib Imap

/-! ## Tidy servers -/

/-- Every running listener and every open pool belongs to a session in the store. -/
def Server.Tidy (s : Server) : Prop :=
  (∀ l ∈ s.listeners, l.isRunning = true → s.live l.sessionID = true) ∧
    ∀ p ∈ s.pools, p.isOpen = true → s.live p.sessionID = true

instance (s : Server) : Decidable s.Tidy := inferInstanceAs (Decidable (_ ∧ _))

/-- The session has a running listener. -/
def Server.Listening (s : Server) (id : String) : Prop :=
  ∃ l ∈ s.listeners, l.isRunning = true ∧ l.sessionID = id

/-- The session has an open pool. -/
def Server.Pooling (s : Server) (id : String) : Prop :=
  ∃ p ∈ s.pools, p.isOpen = true ∧ p.sessionID = id

/-- The sessions that a call takes out of the store. -/
def ConnOp.ends (ttl : Nat) (s : Server) : ConnOp → String → Bool
  | .deleteSession gone, id => s.live id && id == gone
  | .clean, id => s.live id && s.expired ttl id
  | _, _ => false

/-- The session for which a call starts a listener or opens a pool. -/
def ConnOp.starts (s : Server) : ConnOp → Option String
  | .startListener id aid _ => if s.hasListener id aid then none else some id
  | .lookupPool id aid _ => if (s.poolAt id aid).isSome then none else some id
  | _ => none

/-- A call ends no session that has a running listener or an open pool, and starts one only for a
session in the store. -/
structure Clean {ι : Type} (ttl : Nat) (e : Entry ι Server ConnOp ConnAns) : Prop where
  ends : ∀ id, e.op.ends ttl e.pre id = true → ¬e.pre.Listening id ∧ ¬e.pre.Pooling id
  starts : ∀ id, e.op.starts e.pre = some id → e.pre.live id = true

theorem Server.tidy_iff {s : Server} :
    s.Tidy ↔ ∀ id, s.Listening id ∨ s.Pooling id → s.live id = true := by
  constructor
  · rintro ⟨hlisteners, hpools⟩ id (⟨l, hl, hrun, rfl⟩ | ⟨p, hp, hopen, rfl⟩)
    · exact hlisteners l hl hrun
    · exact hpools p hp hopen
  · intro h
    exact ⟨fun l hl hrun => h _ (.inl ⟨l, hl, hrun, rfl⟩),
      fun p hp hopen => h _ (.inr ⟨p, hp, hopen, rfl⟩)⟩

/-! ## What a call does -/

namespace Server

variable {s s' : Server} {id : String}

/-- Nothing is running that was not running before. -/
structure Fewer (s' s : Server) : Prop where
  listening : ∀ id, s'.Listening id → s.Listening id
  pooling : ∀ id, s'.Pooling id → s.Pooling id

theorem Fewer.refl : Fewer s s := ⟨fun _ h => h, fun _ h => h⟩

/-- The listeners that still run. -/
theorem mem_stopListeners {q : Listener → Bool} {l : Listener}
    (hl : l ∈ (s.stopListeners q).listeners) (hrun : l.isRunning = true) :
    l ∈ s.listeners ∧ q l = false := by
  obtain ⟨l₀, hl₀, heq⟩ := List.mem_map.mp hl
  by_cases hq : (l₀.isRunning && q l₀) = true
  · rw [if_pos hq] at heq
    rw [← heq] at hrun
    exact absurd hrun Bool.false_ne_true
  · rw [if_neg hq] at heq
    rw [heq, hrun, Bool.true_and] at hq
    exact ⟨heq ▸ hl₀, by simpa using hq⟩

theorem fewer_stopListeners (q : Listener → Bool) : (s.stopListeners q).Fewer s where
  listening := by
    rintro id ⟨l, hl, hrun, rfl⟩
    exact ⟨l, (mem_stopListeners hl hrun).1, hrun, rfl⟩
  pooling _ h := h

@[simp] theorem not_isOpen_close (p : ManagedPool) : p.close.isOpen = false := by
  simp only [ManagedPool.isOpen, ManagedPool.close, UserPool.close]
  split
  · rename_i hclosed
    rw [hclosed]
    rfl
  · rfl

/-- The pools that are still open. -/
theorem mem_closePools {q : ManagedPool → Bool} {p : ManagedPool}
    (hp : p ∈ (s.closePools q).pools) (hopen : p.isOpen = true) : p ∈ s.pools ∧ q p = false := by
  obtain ⟨p₀, hp₀, heq⟩ := List.mem_map.mp hp
  by_cases hq : (p₀.isOpen && q p₀) = true
  · rw [if_pos hq] at heq
    rw [← heq, not_isOpen_close] at hopen
    exact absurd hopen Bool.false_ne_true
  · rw [if_neg hq] at heq
    rw [heq, hopen, Bool.true_and] at hq
    exact ⟨heq ▸ hp₀, by simpa using hq⟩

theorem fewer_closePools (q : ManagedPool → Bool) : (s.closePools q).Fewer s where
  listening _ h := h
  pooling := by
    rintro id ⟨p, hp, hopen, rfl⟩
    exact ⟨p, (mem_closePools hp hopen).1, hopen, rfl⟩

theorem fewer_janitor : s.janitor.Fewer s where
  listening _ h := h
  pooling := by
    rintro id ⟨p, hp, hopen, rfl⟩
    obtain ⟨p₀, hp₀, rfl⟩ := List.mem_map.mp hp
    by_cases hq : p₀.isOpen = true
    · rw [if_pos hq]
      exact ⟨p₀, hp₀, hq, rfl⟩
    · rw [if_neg hq] at hopen
      exact absurd hopen hq

theorem fewer_poolStep {i : Nat} {a : PoolAction} (hs : s.poolStep i a = some s') :
    s'.Fewer s := by
  obtain ⟨p, hp, hrest⟩ := Option.bind_eq_some_iff.mp hs
  obtain ⟨state, hstate, hs'⟩ := Option.bind_eq_some_iff.mp hrest
  obtain rfl := Option.some.inj hs'
  have hpmem : p ∈ s.pools := List.mem_of_getElem? hp
  refine ⟨fun _ h => h, ?_⟩
  rintro id ⟨p', hp', hopen, rfl⟩
  rcases List.mem_or_eq_of_mem_set hp' with hmem | rfl
  · exact ⟨p', hmem, hopen, rfl⟩
  · refine ⟨p, hpmem, ?_, rfl⟩
    -- a closed pool would still be closed
    by_contra hclosed
    have hclosed' : p.state.pool.closed = true := by simpa [ManagedPool.isOpen] using hclosed
    have := PoolState.closed_step hstate hclosed'
    simp [ManagedPool.isOpen, this] at hopen

/-- A call on the world starts nothing, and may only add a session to the store. -/
theorem afterWorld_spec (o : Op) (r : Ans o) (w : World) :
    (s.afterWorld o r w).listeners = s.listeners ∧ (s.afterWorld o r w).pools = s.pools ∧
      ∀ id, s.live id = true → (s.afterWorld o r w).live id = true := by
  cases o with
  | sessionCreate sess dek =>
    cases r with
    | error e => exact ⟨rfl, rfl, fun _ h => h⟩
    | ok made =>
      refine ⟨rfl, rfl, fun id h => ?_⟩
      simp only [afterWorld, Function.update_apply]
      split
      · rfl
      · exact h
  | _ => exact ⟨rfl, rfl, fun _ h => h⟩

theorem listening_startListener {id' aid : String} {config : ConnectionConfig} :
    (s.startListener id' aid config).Listening id ↔
      s.Listening id ∨ (ConnOp.startListener id' aid config).starts s = some id := by
  simp only [startListener, ConnOp.starts]
  split
  · simp
  · simp only [Listening, List.mem_append, List.mem_singleton]
    constructor
    · rintro ⟨l, hl | rfl, hrun, hid⟩
      · exact .inl ⟨l, hl, hrun, hid⟩
      · exact .inr (congrArg some hid)
    · rintro (⟨l, hl, hrun, hid⟩ | hnew)
      · exact ⟨l, .inl hl, hrun, hid⟩
      · exact ⟨_, .inr rfl, rfl, Option.some.inj hnew⟩

theorem pooling_lookupPool {id' aid : String} {config : ConnectionConfig} :
    (s.lookupPool id' aid config).2.Pooling id ↔
      s.Pooling id ∨ (ConnOp.lookupPool id' aid config).starts s = some id := by
  simp only [lookupPool, ConnOp.starts]
  split
  · rename_i hat
    simp [hat]
  · rename_i hat
    simp only [hat, Option.isSome_none, Bool.false_eq_true, if_false, Pooling, List.mem_append,
      List.mem_singleton]
    constructor
    · rintro ⟨p, hp | rfl, hopen, hid⟩
      · exact .inl ⟨p, hp, hopen, hid⟩
      · exact .inr (congrArg some hid)
    · rintro (⟨p, hp, hopen, hid⟩ | hnew)
      · exact ⟨p, .inl hp, hopen, hid⟩
      · exact ⟨_, .inr rfl, rfl, Option.some.inj hnew⟩

/-- What a call does to the sessions, their listeners and their pools. -/
structure Effects (ttl : Nat) (o : ConnOp) (s s' : Server) : Prop where
  /-- only what the call starts is new -/
  listening : ∀ id, s'.Listening id → s.Listening id ∨ o.starts s = some id
  pooling : ∀ id, s'.Pooling id → s.Pooling id ∨ o.starts s = some id
  started : ∀ id, o.starts s = some id → s'.Listening id ∨ s'.Pooling id
  /-- a call that ends a session leaves what is running -/
  left : ∀ id, o.ends ttl s id = true → s'.listeners = s.listeners ∧ s'.pools = s.pools
  live : ∀ id, s.live id = true → s'.live id = !o.ends ttl s id
  /-- a call that starts something leaves the store -/
  store : ∀ id, o.starts s = some id → s'.live id = s.live id

/-- A call that starts nothing and ends no session. -/
theorem Effects.of_fewer {ttl : Nat} {o : ConnOp} (hstarts : o.starts s = none)
    (hends : ∀ id, o.ends ttl s id = false) (hfewer : s'.Fewer s)
    (hlive : ∀ id, s.live id = true → s'.live id = true) : Effects ttl o s s' where
  listening id h := .inl (hfewer.listening id h)
  pooling id h := .inl (hfewer.pooling id h)
  started id h := by rw [hstarts] at h; cases h
  left id h := by rw [hends] at h; cases h
  live id h := by rw [hends, hlive id h]; rfl
  store id h := by rw [hstarts] at h; cases h

/-- A call that only ends sessions. -/
theorem Effects.of_live {ttl : Nat} {o : ConnOp} {live : String → Bool} (hstarts : o.starts s = none)
    (hlive : ∀ id, s.live id = true → live id = !o.ends ttl s id) :
    Effects ttl o s { s with live := live } where
  listening id h := .inl h
  pooling id h := .inl h
  started id h := by rw [hstarts] at h; cases h
  left id _ := ⟨rfl, rfl⟩
  live := hlive
  store id h := by rw [hstarts] at h; cases h

theorem live_poolStep {i : Nat} {a : PoolAction} (hs : s.poolStep i a = some s') :
    s'.live = s.live := by
  obtain ⟨p, -, hrest⟩ := Option.bind_eq_some_iff.mp hs
  obtain ⟨state, -, hs'⟩ := Option.bind_eq_some_iff.mp hrest
  obtain rfl := Option.some.inj hs'
  rfl

/-- A step of a pool. -/
theorem Effects.of_poolStep {ttl : Nat} {o : ConnOp} {i : Nat} {a : PoolAction}
    (hstarts : o.starts s = none) (hends : ∀ id, o.ends ttl s id = false)
    (hs : s.poolStep i a = some s') : Effects ttl o s s' :=
  .of_fewer hstarts hends (fewer_poolStep hs) fun _ h => by rwa [live_poolStep hs]

/-- **The calls.** -/
theorem effects_of_connSem {P : Params} {ttl : Nat} {o : ConnOp} {r : ConnAns o}
    (h : connSem P ttl o s r s') : Effects ttl o s s' := by
  cases o with
  | world o =>
    obtain ⟨w, -, rfl⟩ := h
    obtain ⟨hlisteners, hpools, hlive⟩ := afterWorld_spec (s := s) o r w
    refine .of_fewer rfl (fun _ => rfl) ⟨fun id hid => ?_, fun id hid => ?_⟩ hlive
    · rwa [Listening, hlisteners] at hid
    · rwa [Pooling, hpools] at hid
  | lookSession | handOut | answer =>
    obtain ⟨-, rfl⟩ := Prod.mk.inj (Option.some.inj h)
    exact .of_fewer rfl (fun _ => rfl) .refl fun _ hid => hid
  | await i borrower =>
    obtain ⟨_, -, heq⟩ := Option.map_eq_some_iff.mp h
    obtain ⟨-, rfl⟩ := Prod.mk.inj heq
    exact .of_fewer rfl (fun _ => rfl) .refl fun _ hid => hid
  | touch gone =>
    obtain ⟨-, rfl⟩ := Prod.mk.inj (Option.some.inj h)
    simp only [touch]
    split <;> exact .of_fewer rfl (fun _ => rfl) ⟨fun _ hid => hid, fun _ hid => hid⟩ fun _ hid => hid
  | deleteSession gone =>
    obtain ⟨-, rfl⟩ := Prod.mk.inj (Option.some.inj h)
    refine .of_live rfl fun id hid => ?_
    by_cases hgone : id = gone
    · simp [ConnOp.ends, hgone, hgone ▸ hid]
    · simp [ConnOp.ends, hgone, hid]
  | clean =>
    obtain ⟨-, rfl⟩ := Prod.mk.inj (Option.some.inj h)
    refine .of_live rfl fun id hid => ?_
    simp [ConnOp.ends, hid]
  | lookupPool id' aid config =>
    have hsame : (s.lookupPool id' aid config).2.listeners = s.listeners ∧
        (s.lookupPool id' aid config).2.live = s.live := by
      simp only [lookupPool]
      split <;> exact ⟨rfl, rfl⟩
    obtain rfl : s' = (s.lookupPool id' aid config).2 := congrArg Prod.snd (Option.some.inj h).symm
    refine ⟨fun id hid => ?_, fun id => pooling_lookupPool.mp, fun id hid => ?_, fun id hid => ?_,
      fun id hid => ?_, fun id _ => ?_⟩
    · rw [Listening, hsame.1] at hid
      exact .inl hid
    · exact .inr (pooling_lookupPool.mpr (.inr hid))
    · exact absurd hid Bool.false_ne_true
    · rw [hsame.2, hid]
      rfl
    · rw [hsame.2]
  | startListener id' aid config =>
    have hsame : (s.startListener id' aid config).pools = s.pools ∧
        (s.startListener id' aid config).live = s.live := by
      simp only [startListener]
      split <;> exact ⟨rfl, rfl⟩
    obtain ⟨-, rfl⟩ := Prod.mk.inj (Option.some.inj h)
    refine ⟨fun id => listening_startListener.mp, fun id hid => ?_, fun id hid => ?_,
      fun id hid => ?_, fun id hid => ?_, fun id _ => ?_⟩
    · rw [Pooling, hsame.1] at hid
      exact .inl hid
    · exact .inl (listening_startListener.mpr (.inr hid))
    · exact absurd hid Bool.false_ne_true
    · rw [hsame.2, hid]
      rfl
    · rw [hsame.2]
  | acquire i =>
    obtain ⟨p, -, hrest⟩ := Option.bind_eq_some_iff.mp h
    obtain ⟨s₁, hs, heq⟩ := Option.bind_eq_some_iff.mp hrest
    obtain ⟨-, rfl⟩ := Prod.mk.inj (Option.some.inj heq)
    exact .of_poolStep rfl (fun _ => rfl) hs
  | release i borrower | poolEvent i ev =>
    obtain ⟨s₁, hs, heq⟩ := Option.map_eq_some_iff.mp h
    obtain ⟨-, rfl⟩ := Prod.mk.inj heq
    exact .of_poolStep rfl (fun _ => rfl) hs
  | destroyPool | destroySessionPools =>
    obtain ⟨-, rfl⟩ := Prod.mk.inj (Option.some.inj h)
    exact .of_fewer rfl (fun _ => rfl) (fewer_closePools _) fun _ hid => hid
  | janitor =>
    obtain ⟨-, rfl⟩ := Prod.mk.inj (Option.some.inj h)
    exact .of_fewer rfl (fun _ => rfl) fewer_janitor fun _ hid => hid
  | stopListener | stopSessionListeners =>
    obtain ⟨-, rfl⟩ := Prod.mk.inj (Option.some.inj h)
    exact .of_fewer rfl (fun _ => rfl) (fewer_stopListeners _) fun _ hid => hid

end Server

/-! ## The invariant -/

section Runs

variable {ι : Type} {P : Params} {ttl : Nat}

/-- A call leaves a tidy server tidy exactly if it is clean. -/
theorem tidy_step {e : Entry ι Server ConnOp ConnAns} (h : connSem P ttl e.op e.pre e.ans e.post)
    (hpre : e.pre.Tidy) : e.post.Tidy ↔ Clean ttl e := by
  have heff := Server.effects_of_connSem h
  rw [Server.tidy_iff] at hpre ⊢
  constructor
  · intro hpost
    -- what runs for a session that the call ends, still runs for it afterwards
    have hgone (id : String) (hends : e.op.ends ttl e.pre id = true) :
        ¬(e.pre.Listening id ∨ e.pre.Pooling id) := by
      intro hconn
      obtain ⟨hlisteners, hpools⟩ := heff.left id hends
      have hstill : e.post.live id = true := by
        refine hpost id ?_
        rwa [Server.Listening, Server.Pooling, hlisteners, hpools]
      rw [heff.live id (hpre id hconn), hends] at hstill
      exact Bool.false_ne_true hstill
    refine ⟨fun id hends => not_or.mp (hgone id hends), fun id hstarts => ?_⟩
    rw [← heff.store id hstarts]
    exact hpost id (heff.started id hstarts)
  · intro hclean id hconn
    have hcase : (e.pre.Listening id ∨ e.pre.Pooling id) ∨ e.op.starts e.pre = some id := by
      rcases hconn with hl | hp
      · exact (heff.listening id hl).imp_left .inl
      · exact (heff.pooling id hp).imp_left .inr
    rcases hcase with hbefore | hstarts
    · have hends : e.op.ends ttl e.pre id = false := by
        by_contra hne
        obtain ⟨hl, hp⟩ := hclean.ends id (by simpa using hne)
        exact hbefore.elim hl hp
      rw [heff.live id (hpre id hbefore), hends]
      rfl
    · rw [heff.store id hstarts]
      exact hclean.starts id hstarts

variable [DecidableEq ι] {reqs : ι → ConnRequest} {w : World} {live : String → Bool}
  {lastActive : String → Nat} {tr : List (Entry ι Server ConnOp ConnAns)}
  {c : Conf ι Server ConnOp ConnAns Resp}

/-- **Sessions and what they have running.** The server stays tidy in exactly the runs whose calls
are all clean. -/
theorem tidy_iff_clean (h : Run (connSem P ttl) (startServer P reqs w live lastActive) tr c) :
    (∀ e ∈ tr, e.post.Tidy) ↔ ∀ e ∈ tr, Clean ttl e := by
  -- by induction on the run, which also ends in a tidy state if either holds
  have hrun : ((∀ e ∈ tr, e.post.Tidy) ↔ ∀ e ∈ tr, Clean ttl e) ∧
      ((∀ e ∈ tr, e.post.Tidy) → c.state.Tidy) := by
    induction h with
    | nil => exact ⟨by simp, fun _ => ⟨by simp [startServer], by simp [startServer]⟩⟩
    | @snoc tr c h i o k r s' hk hs ih =>
      obtain ⟨hiff, hend⟩ := ih
      refine ⟨?_, fun hall => hall ⟨i, o, r, c.state, s'⟩ (by simp)⟩
      simp only [List.mem_append, List.mem_singleton, or_imp, forall_and, forall_eq]
      rw [← hiff]
      have hstep (hpre : c.state.Tidy) : s'.Tidy ↔ Clean ttl ⟨i, o, r, c.state, s'⟩ :=
        tidy_step (e := ⟨i, o, r, c.state, s'⟩) hs hpre
      exact and_congr_right fun hall => hstep (hend hall)
  exact hrun.1

end Runs

/-- A session asks for events and is logged out. -/
def loggingOut (second : Bool) : ConnRequest := if second then .logout "s" else .sse "s"

/-- One after the other. -/
def loggedOut : List (Entry Bool Server ConnOp ConnAns) × Conf Bool Server ConnOp ConnAns Resp :=
  runServer .sample 60 (List.replicate 7 false ++ List.replicate 7 true) loggingOut
    annsSessions (fun id => id = "s") fun _ => 0

theorem clean_loggedOut :
    Run (connSem .sample 60)
      (startServer .sample loggingOut annsSessions (fun id => id = "s") fun _ => 0)
      loggedOut.1 loggedOut.2 ∧ (∀ e ∈ loggedOut.1, Clean 60 e) ∧ loggedOut.2.state.live "s" = false :=
  ⟨run_runServer _ _ _ _ _ _ _, (tidy_iff_clean (run_runServer _ _ _ _ _ _ _)).mp (by decide +kernel),
    by decide +kernel⟩

/-- A session asks for events and for nothing else while it lives; then the cleaner comes by. -/
def expiring (i : Fin 3) : ConnRequest :=
  match i with
  | 0 => .sse "s"
  | 1 => .anyone (.env (.tick 61))
  | 2 => .cleaner

/-- The three in turn. -/
def expiredRun : List (Entry (Fin 3) Server ConnOp ConnAns) ×
    Conf (Fin 3) Server ConnOp ConnAns Resp :=
  runServer .sample 60 (List.replicate 7 0 ++ [1, 1, 2]) expiring annsSessions
    (fun id => id = "s") fun _ => 0

/-- **The cleaner leaves the listeners running**: nobody stops those of a session that expires. -/
theorem listener_outlives_session :
    Run (connSem .sample 60)
      (startServer .sample expiring annsSessions (fun id => id = "s") fun _ => 0)
      expiredRun.1 expiredRun.2 ∧ ∃ e ∈ expiredRun.1, ¬e.post.Tidy :=
  ⟨run_runServer _ _ _ _ _ _ _, by decide +kernel⟩

/-! ## Logging out -/

namespace Server

variable {s : Server} {id : String}

/-- The keys of a session have its prefix. -/
theorem isPrefixOf_connectionKey (id aid : String) :
    (id ++ "::").toList.isPrefixOf (connectionKey id aid).toList = true := by
  have hkey : (connectionKey id aid).toList = (id ++ "::").toList ++ aid.toList :=
    String.toList_append
  rw [List.isPrefixOf_iff_prefix, hkey]
  exact List.prefix_append _ _

theorem not_listening_stopSessionListeners : ¬(s.stopSessionListeners id).Listening id := by
  rintro ⟨l, hl, hrun, rfl⟩
  obtain ⟨-, hq⟩ := mem_stopListeners hl hrun
  exact Bool.false_ne_true (hq.symm.trans (isPrefixOf_connectionKey l.sessionID l.accountID))

theorem not_pooling_destroySessionPools : ¬(s.destroySessionPools id).Pooling id := by
  rintro ⟨p, hp, hopen, rfl⟩
  obtain ⟨-, hq⟩ := mem_closePools hp hopen
  exact Bool.false_ne_true (hq.symm.trans (isPrefixOf_connectionKey p.sessionID p.accountID))

end Server

/-- The deletion in `Get` is a logout's first call after its look at the session; the one in
`Logout` comes right after the listeners are stopped and the pools are destroyed. -/
def LogoutRule (h : List (Event ConnOp ConnAns)) (o : ConnOp) : Prop :=
  ∀ id, o = .deleteSession id → (∀ v ∈ h, v.1 ≠ .stopSessionListeners id) ∨
    ∃ h₀, h = h₀ ++ [⟨.stopSessionListeners id, ()⟩, ⟨.destroySessionPools id, ()⟩]

theorem along_logout (token : String) :
    Along LogoutRule (fun _ _ => True) (withSession token logout) [] := by
  have hother {h : List (Event ConnOp ConnAns)} {o : ConnOp} (ho : ∀ id, o ≠ .deleteSession id) :
      LogoutRule h o := fun id heq => absurd heq (ho id)
  refine ⟨hother (by simp), fun r => ?_⟩
  rcases r with _ | ⟨sess, expired⟩
  · exact ⟨hother (by simp), fun _ => trivial⟩
  · cases expired with
    | true => exact ⟨fun id _ => .inl (by simp), fun _ => ⟨hother (by simp), fun _ => trivial⟩⟩
    | false =>
      refine ⟨hother (by simp), fun accounts => ⟨hother (by simp), fun _ => ?_⟩⟩
      refine ⟨hother (by simp), fun _ => ⟨hother (by simp), fun _ => ?_⟩⟩
      refine ⟨fun id ho => .inr ?_, fun _ => ⟨hother (by simp), fun _ => trivial⟩⟩
      obtain rfl := ConnOp.deleteSession.inj ho
      exact ⟨[⟨.lookSession token, some (sess, false)⟩, ⟨.world (.sessionAccounts sess.id), accounts⟩,
        ⟨.touch sess.id, ()⟩], rfl⟩

section Runs

variable {ι : Type} [DecidableEq ι] {P : Params} {ttl : Nat} {reqs : ι → ConnRequest} {w : World}
  {live : String → Bool} {lastActive : String → Nat}
  {tr pre post : List (Entry ι Server ConnOp ConnAns)} {e : Entry ι Server ConnOp ConnAns}
  {c : Conf ι Server ConnOp ConnAns Resp}

omit [DecidableEq ι] in
/-- The listeners of the session are stopped. -/
theorem not_listening_of_event (hs : connSem P ttl e.op e.pre e.ans e.post) {id : String}
    (he : e.event = ⟨.stopSessionListeners id, ()⟩) : ¬e.post.Listening id := by
  obtain ⟨who, op, ans, before, after⟩ := e
  cases he
  obtain rfl : after = before.stopSessionListeners id := congrArg Prod.snd (Option.some.inj hs).symm
  exact Server.not_listening_stopSessionListeners

omit [DecidableEq ι] in
/-- The pools of the session are closed. -/
theorem not_pooling_of_event (hs : connSem P ttl e.op e.pre e.ans e.post) {id : String}
    (he : e.event = ⟨.destroySessionPools id, ()⟩) : ¬e.post.Pooling id := by
  obtain ⟨who, op, ans, before, after⟩ := e
  cases he
  obtain rfl : after = before.destroySessionPools id := congrArg Prod.snd (Option.some.inj hs).symm
  exact Server.not_pooling_destroySessionPools

/-- **`Logout`.** If nothing is started for the session once `Logout` has stopped its listeners,
the deletion is clean. -/
theorem clean_of_logout (h : Run (connSem P ttl) (startServer P reqs w live lastActive) tr c)
    (htr : tr = pre ++ e :: post) {token id : String} (hreq : reqs e.who = .logout token)
    (hop : e.op = .deleteSession id) (hlogout : ⟨.stopSessionListeners id, ()⟩ ∈ proj e.who pre) :
    ∃ a x b y d, pre = a ++ x :: (b ++ y :: d) ∧ x.who = e.who ∧
      x.event = ⟨.stopSessionListeners id, ()⟩ ∧ y.event = ⟨.destroySessionPools id, ()⟩ ∧
      ((∀ z ∈ b ++ y :: d, z.op.starts z.pre ≠ some id) → Clean ttl e) := by
  obtain ⟨c₁, hpre, hstate, ⟨k, hk⟩, -⟩ := h.cut htr
  have hprog : (startServer P reqs w live lastActive).procs e.who = withSession token logout := by
    simp only [startServer, hreq, ConnRequest.prog]
  have hrule : LogoutRule (proj e.who pre) e.op := by
    have hpath := hpre.path e.who
    rw [hprog, hk] at hpath
    exact ((along_logout token).path hpath).1
  rcases hrule id hop with hnone | ⟨h₀, hhist⟩
  · exact absurd rfl (hnone _ hlogout)
  · -- the two calls of the history are entries of the trace
    obtain ⟨tr₁, tr₂, rfl, -, htr₂⟩ := proj_eq_append hhist
    obtain ⟨a, x, rest, rfl, -, hxwho, hx, hrest⟩ := proj_eq_cons htr₂
    obtain ⟨b, y, d, rfl, -, -, hy, -⟩ := proj_eq_cons hrest
    refine ⟨tr₁ ++ a, x, b, y, d, by simp, hxwho, hx, hy, fun hquiet => ?_⟩
    have hcut : tr₁ ++ (a ++ x :: (b ++ y :: d)) = (tr₁ ++ a) ++ x :: (b ++ y :: d) := by simp
    have hcut' : tr₁ ++ (a ++ x :: (b ++ y :: d)) = (tr₁ ++ a ++ x :: b) ++ y :: d := by simp
    have heff (z) (hz : z ∈ b ++ y :: d) : Server.Effects ttl z.op z.pre z.post :=
      Server.effects_of_connSem (hpre.sem_of_mem (by
        rw [hcut]
        exact List.mem_append_right _ (List.mem_cons_of_mem _ hz)))
    have hx' := not_listening_of_event (hpre.sem_of_mem (by rw [hcut]; simp)) hx
    have hy' := not_pooling_of_event (hpre.sem_of_mem (by rw [hcut']; simp)) hy
    have hlistening : ¬c₁.state.Listening id := by
      refine (hpre.holds_after (I := fun s => ¬s.Listening id) hcut hx' fun a' z b' hz _ hold hnow => ?_).1
      have hmem : z ∈ b ++ y :: d := by rw [hz]; simp
      rcases (heff z hmem).listening id hnow with hbefore | hstarts
      · exact hold hbefore
      · exact hquiet z hmem hstarts
    have hpooling : ¬c₁.state.Pooling id := by
      refine (hpre.holds_after (I := fun s => ¬s.Pooling id) hcut' hy' fun a' z b' hz _ hold hnow => ?_).1
      have hmem : z ∈ b ++ y :: d := by rw [hz]; simp
      rcases (heff z hmem).pooling id hnow with hbefore | hstarts
      · exact hold hbefore
      · exact hquiet z hmem hstarts
    rw [hstate] at hlistening hpooling
    refine ⟨fun id' hends => ?_, fun id' hstarts => ?_⟩
    · rw [hop] at hends
      obtain rfl : id' = id := by simpa using (Bool.and_eq_true_iff.mp hends).2
      exact ⟨hlistening, hpooling⟩
    · rw [hop] at hstarts
      cases hstarts

end Runs

end E2Mail.Backend
