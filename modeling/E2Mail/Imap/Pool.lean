import Mathlib.Data.List.Perm.Basic
import Mathlib.Data.List.Nodup

/-!
# The connection pool

The connections to one account are shared by the requests of a session. The pool
counts the connections that there are: those that are idle, those that are checked
out and those still being dialled, which happens outside the lock.

* `UserPool` and its operations, each of them what is done under the lock in one go;
* `PoolState` — the pool with all its borrowers, each at its own point;
* `PoolState.step`, `PoolState.run` — any of them goes on, at any time;
* `PoolState.Sound` — the invariant, kept by every step;
* `activeCount_eq_and_owned` — the counter is right while the pool is open, and no
  client has two owners.

Times are in nanoseconds. What the clock shows is an input of each step.
-/

namespace E2Mail.Imap

/-! ## The pool -/

/-- `Client`, as far as the pool looks at it. -/
structure PooledClient where
  /-- which client: each one that is dialled has a number of its own -/
  id : Nat
  /-- `rawClient != nil` -/
  rawClient : Bool
  /-- `lastUsed` -/
  lastUsed : Int
  deriving DecidableEq, Repr

/-- `UserPool`. -/
structure UserPool where
  /-- `maxCapacity` -/
  maxCapacity : Int
  /-- `idleTimeout` -/
  idleTimeout : Int
  /-- `available`, the one released last first -/
  available : List PooledClient
  /-- `activeCount` -/
  activeCount : Int
  /-- `closed` -/
  closed : Bool
  /-- `lastActive` -/
  lastActive : Int
  deriving DecidableEq, Repr

/-- `time.Minute` -/
def minute : Int := 60 * 1000000000

/-- `NewUserPool`. -/
def newUserPool (maxCap idleTimeout now : Int) : UserPool where
  maxCapacity := if maxCap ≤ 0 then 4 else maxCap
  idleTimeout := if idleTimeout ≤ 0 then 5 * minute else idleTimeout
  available := []
  activeCount := 0
  closed := false
  lastActive := now

/-- The errors of `Acquire`. -/
inductive AcquireError
  /-- `ErrPoolClosed` -/
  | poolClosed
  /-- `ErrAcquireTimeout` -/
  | acquireTimeout
  /-- `ctx.Err()` -/
  | context
  /-- the error of `NewClient` -/
  | dial (err : String)
  deriving DecidableEq, Repr

namespace UserPool

/-- Neither expired nor broken. -/
def usable (p : UserPool) (now : Int) (c : PooledClient) : Bool :=
  now - c.lastUsed < p.idleTimeout && c.rawClient

/-- The loop of `Acquire` over the idle clients: those that are not usable are closed. -/
def reuse (now : Int) : List PooledClient → UserPool → UserPool × Option PooledClient
  | [], p => ({ p with available := [] }, none)
  | c :: rest, p =>
    if p.usable now c then ({ p with available := rest }, some c)
    else reuse now rest { p with activeCount := p.activeCount - 1 }

/-- How `Acquire` goes on once it has left the lock. -/
inductive Acquired
  /-- it fails: the pool is closed -/
  | closed
  /-- it returns an idle client -/
  | reused (c : PooledClient)
  /-- it dials -/
  | dial
  /-- it waits -/
  | wait

/-- `Acquire`, up to where it leaves the lock. -/
def acquire (p : UserPool) (now : Int) : UserPool × Acquired :=
  if p.closed then (p, .closed)
  else
    match reuse now p.available { p with lastActive := now } with
    | (p, some c) => (p, .reused c)
    | (p, none) =>
      if p.activeCount < p.maxCapacity then ({ p with activeCount := p.activeCount + 1 }, .dial)
      else (p, .wait)

/-- `Acquire`, after a dial that failed. -/
def dialFailed (p : UserPool) : UserPool := { p with activeCount := p.activeCount - 1 }

/-- How `Acquire` goes on after a tick. -/
inductive Polled
  /-- it fails: the pool is closed -/
  | closed
  /-- it returns an idle client -/
  | reused (c : PooledClient)
  /-- it waits for the next tick -/
  | wait

/-- `Acquire`, on a tick: one idle client is looked at. -/
def poll (p : UserPool) (now : Int) : UserPool × Polled :=
  if p.closed then (p, .closed)
  else
    match p.available with
    | [] => (p, .wait)
    | c :: rest =>
      if !c.rawClient || p.idleTimeout ≤ now - c.lastUsed then
        ({ p with available := rest, activeCount := p.activeCount - 1 }, .wait)
      else ({ p with available := rest }, .reused c)

/-- `Release`. -/
def release (p : UserPool) (now : Int) (c : PooledClient) : UserPool :=
  if p.closed then { p with activeCount := p.activeCount - 1 }
  else { p with available := { c with lastUsed := now } :: p.available, lastActive := now }

/-- `Close`. -/
def close (p : UserPool) : UserPool :=
  if p.closed then p else { p with closed := true, available := [], activeCount := 0 }

/-- A pass of `startJanitor` over the pool: it is closed if it was not active for long. -/
def janitor (p : UserPool) (now : Int) : UserPool :=
  if 15 * minute < now - p.lastActive then
    { p with closed := true, available := [], activeCount := 0 }
  else p

end UserPool

/-! ## The borrowers -/

/-- Where a borrower is between its `Acquire` and its `Release`. -/
inductive Borrow
  /-- `NewClient` is running -/
  | dialing
  /-- waits for the next tick -/
  | waiting
  /-- has the client -/
  | holding (c : PooledClient)
  /-- `Acquire` has failed -/
  | failed (err : AcquireError)
  /-- has released its client -/
  | released
  deriving DecidableEq, Repr

namespace Borrow

/-- The client that is checked out. -/
def client? : Borrow → Option PooledClient
  | holding c => some c
  | _ => none

/-- A dial is in progress. -/
def isDialing : Borrow → Bool
  | dialing => true
  | _ => false

end Borrow

/-- The pool and those that have called `Acquire` so far. -/
structure PoolState where
  /-- the pool -/
  pool : UserPool
  /-- the borrowers, one for each call of `Acquire` -/
  borrows : List Borrow
  /-- how many clients have been dialled -/
  dialled : Nat
  deriving DecidableEq, Repr

/-- What happens next. -/
inductive PoolAction
  /-- someone calls `Acquire` -/
  | acquire (now : Int)
  /-- the dial of a borrower succeeds -/
  | dialOk (i : Nat) (now : Int)
  /-- the dial of a borrower fails -/
  | dialErr (i : Nat) (err : String)
  /-- a tick for a borrower that waits -/
  | poll (i : Nat) (now : Int)
  /-- a borrower that waits gives up -/
  | giveUp (i : Nat) (cancelled : Bool)
  /-- a borrower uses its client, which may break -/
  | use (i : Nat) (now : Int) (rawClient : Bool)
  /-- a borrower releases its client -/
  | release (i : Nat) (now : Int)
  /-- `Close` -/
  | close
  /-- the janitor comes by -/
  | janitor (now : Int)
  deriving DecidableEq, Repr

namespace PoolState

/-- A pool that nobody has used yet. -/
def init (maxCap idleTimeout now : Int) : PoolState := ⟨newUserPool maxCap idleTimeout now, [], 0⟩

/-- A new borrower. -/
def join (s : PoolState) (p : UserPool) (b : Borrow) : PoolState :=
  { s with pool := p, borrows := s.borrows ++ [b] }

/-- A borrower goes on, and with it the pool. -/
def move (s : PoolState) (i : Nat) (p : UserPool) (b : Borrow) : PoolState :=
  { s with pool := p, borrows := s.borrows.set i b }

/-- A step, if it can be taken. -/
def step (s : PoolState) : PoolAction → Option PoolState
  | .acquire now =>
    match s.pool.acquire now with
    | (p, .closed) => some (s.join p (.failed .poolClosed))
    | (p, .reused c) => some (s.join p (.holding c))
    | (p, .dial) => some (s.join p .dialing)
    | (p, .wait) => some (s.join p .waiting)
  | .dialOk i now =>
    match s.borrows[i]? with
    | some .dialing =>
      some { s.move i s.pool (.holding ⟨s.dialled, true, now⟩) with dialled := s.dialled + 1 }
    | _ => none
  | .dialErr i err =>
    match s.borrows[i]? with
    | some .dialing => some (s.move i s.pool.dialFailed (.failed (.dial err)))
    | _ => none
  | .poll i now =>
    match s.borrows[i]? with
    | some .waiting =>
      match s.pool.poll now with
      | (p, .closed) => some (s.move i p (.failed .poolClosed))
      | (p, .reused c) => some (s.move i p (.holding c))
      | (p, .wait) => some (s.move i p .waiting)
    | _ => none
  | .giveUp i cancelled =>
    match s.borrows[i]? with
    | some .waiting =>
      some (s.move i s.pool (.failed (if cancelled then .context else .acquireTimeout)))
    | _ => none
  | .use i now rawClient =>
    match s.borrows[i]? with
    | some (.holding c) =>
      some (s.move i s.pool (.holding { c with lastUsed := now, rawClient := rawClient }))
    | _ => none
  | .release i now =>
    match s.borrows[i]? with
    | some (.holding c) => some (s.move i (s.pool.release now c) .released)
    | _ => none
  | .close => some { s with pool := s.pool.close }
  | .janitor now => some { s with pool := s.pool.janitor now }

/-- The actions one after the other. -/
def run : List PoolAction → PoolState → Option PoolState
  | [], s => some s
  | a :: actions, s => (s.step a).bind (run actions)

/-- The clients that are checked out. -/
def checkedOut (s : PoolState) : List PooledClient := s.borrows.filterMap Borrow.client?

/-- The dials in progress. -/
def dials (s : PoolState) : Nat := s.borrows.countP Borrow.isDialing

/-- The clients that are idle or checked out, by their numbers. -/
def owned (s : PoolState) : List Nat := (s.pool.available ++ s.checkedOut).map PooledClient.id

/-- What holds of a pool and its borrowers at any time. -/
structure Sound (s : PoolState) : Prop where
  /-- the counter of an open pool is right -/
  counted : s.pool.closed = false →
    s.pool.activeCount = s.pool.available.length + s.checkedOut.length + s.dials
  /-- and within the capacity -/
  bounded : s.pool.closed = false → s.pool.activeCount ≤ s.pool.maxCapacity
  /-- no client has two owners -/
  nodup : s.owned.Nodup
  /-- a client that is dialled next is a new one -/
  old : ∀ id ∈ s.owned, id < s.dialled

end PoolState

/-! ## What the operations do to the pool -/

namespace UserPool

variable {p p' : UserPool} {now : Int}

/-- The idle clients in front of the one that is taken are closed, and counted out. -/
theorem reuse_eq {l : List PooledClient} {o : Option PooledClient}
    (h : reuse now l p = (p', o)) :
    ∃ stale, l = stale ++ o.toList ++ p'.available ∧
      p'.activeCount = p.activeCount - stale.length ∧
      p'.closed = p.closed ∧ p'.maxCapacity = p.maxCapacity := by
  induction l generalizing p with
  | nil =>
    obtain ⟨rfl, rfl⟩ := Prod.mk.inj h
    exact ⟨[], rfl, by simp, rfl, rfl⟩
  | cons c rest ih =>
    rw [reuse] at h
    by_cases hc : p.usable now c = true
    · rw [if_pos hc] at h
      obtain ⟨rfl, rfl⟩ := Prod.mk.inj h
      exact ⟨[], rfl, by simp, rfl, rfl⟩
    · rw [if_neg hc] at h
      obtain ⟨stale, hl, hcount, hclosed, hcap⟩ := ih h
      refine ⟨c :: stale, by simp [hl], ?_, hclosed, hcap⟩
      simp only at hcount
      rw [hcount, List.length_cons]
      omega

/-- The client that `Acquire` takes and the dial that it starts. -/
def Acquired.borrow : Acquired → Borrow
  | .closed => .failed .poolClosed
  | .reused c => .holding c
  | .dial => .dialing
  | .wait => .waiting

/-- **`Acquire`** moves one idle client to the borrower at most, closes some, and counts what
it closes and what it dials. -/
theorem acquire_eq {a : Acquired} (h : p.acquire now = (p', a)) :
    ∃ stale, p.available = stale ++ a.borrow.client?.toList ++ p'.available ∧
      p'.closed = p.closed ∧ p'.maxCapacity = p.maxCapacity ∧
      (p.closed = false →
        p'.activeCount = p.activeCount - stale.length + (if a.borrow.isDialing then 1 else 0)) ∧
      (p'.activeCount ≤ p.activeCount ∨ p'.activeCount ≤ p.maxCapacity) := by
  rw [acquire] at h
  by_cases hclosed : p.closed = true
  · rw [if_pos hclosed] at h
    obtain ⟨rfl, rfl⟩ := Prod.mk.inj h
    exact ⟨[], rfl, rfl, rfl, by simp [hclosed], .inl (Int.le_refl _)⟩
  · rw [if_neg hclosed] at h
    cases hr : reuse now p.available { p with lastActive := now } with
    | mk q o =>
      obtain ⟨stale, hl, hcount, hq, hcap⟩ := reuse_eq hr
      rw [hr] at h
      simp only at hcount hq hcap
      cases o with
      | some c =>
        obtain ⟨rfl, rfl⟩ := Prod.mk.inj h
        refine ⟨stale, hl, hq, hcap, fun _ => ?_, .inl (by omega)⟩
        simpa [Acquired.borrow, Borrow.isDialing] using hcount
      | none =>
        simp only at h
        by_cases hroom : q.activeCount < q.maxCapacity
        · rw [if_pos hroom] at h
          obtain ⟨rfl, rfl⟩ := Prod.mk.inj h
          refine ⟨stale, hl, hq, hcap, fun _ => ?_, .inr ?_⟩
          · simp [Acquired.borrow, Borrow.isDialing, hcount]
          · simp only
            omega
        · rw [if_neg hroom] at h
          obtain ⟨rfl, rfl⟩ := Prod.mk.inj h
          refine ⟨stale, hl, hq, hcap, fun _ => ?_, .inl (by omega)⟩
          simpa [Acquired.borrow, Borrow.isDialing] using hcount

/-- The client that a tick brings. -/
def Polled.borrow : Polled → Borrow
  | .closed => .failed .poolClosed
  | .reused c => .holding c
  | .wait => .waiting

/-- **A tick** moves one idle client to the borrower or closes it, at most. -/
theorem poll_eq {r : Polled} (h : p.poll now = (p', r)) :
    ∃ stale, p.available = stale ++ r.borrow.client?.toList ++ p'.available ∧
      p'.closed = p.closed ∧ p'.maxCapacity = p.maxCapacity ∧
      p'.activeCount = p.activeCount - stale.length := by
  rw [poll] at h
  by_cases hclosed : p.closed = true
  · rw [if_pos hclosed] at h
    obtain ⟨rfl, rfl⟩ := Prod.mk.inj h
    exact ⟨[], rfl, rfl, rfl, by simp⟩
  · rw [if_neg hclosed] at h
    cases hl : p.available with
    | nil =>
      rw [hl] at h
      obtain ⟨rfl, rfl⟩ := Prod.mk.inj h
      exact ⟨[], by simp [hl, Polled.borrow, Borrow.client?], rfl, rfl, by simp⟩
    | cons c rest =>
      rw [hl] at h
      simp only at h
      by_cases hstale : (!c.rawClient || decide (p.idleTimeout ≤ now - c.lastUsed)) = true
      · rw [if_pos hstale] at h
        obtain ⟨rfl, rfl⟩ := Prod.mk.inj h
        exact ⟨[c], rfl, rfl, rfl, rfl⟩
      · rw [if_neg hstale] at h
        obtain ⟨rfl, rfl⟩ := Prod.mk.inj h
        exact ⟨[], rfl, rfl, rfl, by simp⟩

end UserPool

/-! ## The invariant -/

namespace PoolState

variable {s s' : PoolState} {p : UserPool} {b d : Borrow} {i : Nat}

/-- One borrower among the others. -/
theorem perm_set {l : List Borrow} (h : l[i]? = some b) :
    ∃ rest, l.Perm (b :: rest) ∧ (l.set i d).Perm (d :: rest) := by
  obtain ⟨hi, rfl⟩ := List.getElem?_eq_some_iff.mp h
  exact ⟨l.eraseIdx i, (List.getElem_cons_eraseIdx_perm hi).symm, List.set_perm_cons_eraseIdx hi d⟩

theorem checkedOut_join : (s.join p b).checkedOut = s.checkedOut ++ b.client?.toList := by
  rw [checkedOut, join, List.filterMap_append, checkedOut]
  cases hb : b.client? <;> simp [hb]

theorem dials_join : (s.join p b).dials = s.dials + if b.isDialing then 1 else 0 := by
  rw [dials, join, List.countP_append, List.countP_singleton, dials]

/-- Where a borrower goes on, the others keep what they have. -/
theorem perm_move (h : s.borrows[i]? = some b) :
    (b.client?.toList ++ (s.move i p d).checkedOut).Perm (d.client?.toList ++ s.checkedOut) := by
  obtain ⟨rest, hold, hnew⟩ := perm_set (d := d) h
  have hout := hold.filterMap Borrow.client?
  have hout' := hnew.filterMap Borrow.client?
  have hcons : ∀ b : Borrow, (b :: rest).filterMap Borrow.client? =
      b.client?.toList ++ rest.filterMap Borrow.client? := by
    intro b
    cases hb : b.client? <;> simp [hb]
  rw [hcons] at hout hout'
  refine ((hout'.append_left _).trans ?_).trans (hout.symm.append_left _)
  rw [← List.append_assoc, ← List.append_assoc]
  exact List.perm_append_comm.append_right _

theorem dials_move (h : s.borrows[i]? = some b) :
    (s.move i p d).dials + (if b.isDialing then 1 else 0) =
      s.dials + if d.isDialing then 1 else 0 := by
  obtain ⟨rest, hold, hnew⟩ := perm_set (d := d) h
  rw [dials, move, hnew.countP_eq, dials, hold.countP_eq, List.countP_cons, List.countP_cons]
  omega

theorem count_owned (id : Nat) : s.owned.count id =
    (s.pool.available.map PooledClient.id).count id +
      (s.checkedOut.map PooledClient.id).count id := by
  rw [owned, List.map_append, List.count_append]

/-- Borrowers of one client are the same. -/
theorem holding_inj {l : List Borrow} {c c' : PooledClient} {j : Nat}
    (hnodup : (l.filterMap fun b => b.client?.map PooledClient.id).Nodup)
    (hi : l[i]? = some (.holding c)) (hj : l[j]? = some (.holding c')) (hid : c.id = c'.id) :
    i = j := by
  induction l generalizing i j with
  | nil => cases hi
  | cons b l ih =>
    have hnew : ∀ (k : Nat) (c'' : PooledClient), l[k]? = some (.holding c'') → c''.id ∈
        l.filterMap fun b => b.client?.map PooledClient.id := fun k c'' hk =>
      List.mem_filterMap.mpr ⟨_, List.mem_of_getElem? hk, rfl⟩
    cases i with
    | zero =>
      cases j with
      | zero => rfl
      | succ j =>
        obtain rfl := Option.some.inj hi
        exact absurd (hid ▸ hnew j c' hj) (List.nodup_cons.mp hnodup).1
    | succ i =>
      cases j with
      | zero =>
        obtain rfl := Option.some.inj hj
        exact absurd (hid ▸ hnew i c hi) (List.nodup_cons.mp hnodup).1
      | succ j =>
        have hsub : (l.filterMap fun b => b.client?.map PooledClient.id).Nodup :=
          hnodup.sublist ((List.sublist_cons_self b l).filterMap _)
        exact congrArg Nat.succ (ih hsub hi hj)

/-- What a step has to show where it brings no new client. -/
theorem Sound.of_count (hs : s.Sound)
    (hopen : s'.pool.closed = false → s.pool.closed = false ∧
      s'.pool.activeCount ≤ s'.pool.maxCapacity ∧
      s'.pool.activeCount - s'.pool.available.length - s'.checkedOut.length - s'.dials =
        s.pool.activeCount - s.pool.available.length - s.checkedOut.length - s.dials)
    (howned : ∀ id, s'.owned.count id ≤ s.owned.count id) (hdialled : s'.dialled = s.dialled) :
    s'.Sound where
  counted h := by
    obtain ⟨hc, -, hcount⟩ := hopen h
    have hold := hs.counted hc
    omega
  bounded h := (hopen h).2.1
  nodup := List.nodup_iff_count_le_one.mpr fun id =>
    Nat.le_trans (howned id) (List.nodup_iff_count_le_one.mp hs.nodup id)
  old id hid := by
    rw [hdialled]
    refine hs.old id (List.count_pos_iff.mp ?_)
    exact Nat.lt_of_lt_of_le (List.count_pos_iff.mpr hid) (howned id)

/-- Idle clients are closed, and one may go to a borrower. -/
theorem Sound.take (hs : s.Sound) {stale : List PooledClient} {p : UserPool} {c : Option PooledClient}
    (hidle : s.pool.available = stale ++ c.toList ++ p.available)
    (hout : s'.checkedOut.Perm (c.toList ++ s.checkedOut)) (hpool : s'.pool = p)
    (hclosed : p.closed = s.pool.closed) (hbound : p.closed = false → p.activeCount ≤ p.maxCapacity)
    (hcount : p.closed = false →
      p.activeCount - s'.dials = s.pool.activeCount - stale.length - s.dials)
    (hdialled : s'.dialled = s.dialled) : s'.Sound := by
  subst hpool
  refine hs.of_count (fun h => ⟨hclosed ▸ h, hbound h, ?_⟩) (fun id => ?_) hdialled
  · have hc := hcount h
    rw [hidle, hout.length_eq]
    simp only [List.length_append]
    omega
  · rw [count_owned, count_owned, hidle, (hout.map _).count_eq]
    simp only [List.map_append, List.count_append]
    omega

/-- A borrower goes on without a change of the pool. -/
theorem Sound.goOn (hs : s.Sound) (h : s.borrows[i]? = some b) (hb : b.isDialing = false)
    (hb' : d.isDialing = false)
    (hid : d.client?.map PooledClient.id = b.client?.map PooledClient.id) :
    (s.move i s.pool d).Sound := by
  have hperm := perm_move (d := d) (p := s.pool) h
  have hdials := dials_move (d := d) (p := s.pool) h
  have hids : d.client?.toList.map PooledClient.id = b.client?.toList.map PooledClient.id := by
    rw [← Option.toList_map, hid, Option.toList_map]
  have hlen : d.client?.toList.length = b.client?.toList.length := by
    simpa using congrArg List.length hids
  rw [hb, hb'] at hdials
  have hlength := hperm.length_eq
  rw [List.length_append, List.length_append, hlen] at hlength
  refine hs.of_count (fun hopen => ⟨hopen, hs.bounded hopen, ?_⟩) (fun id => ?_) rfl
  · have hpool : (s.move i s.pool d).pool = s.pool := rfl
    rw [hpool]
    simp only [Bool.false_eq_true, if_false] at hdials
    omega
  · have hcount := (hperm.map PooledClient.id).count_eq id
    rw [List.map_append, List.map_append, List.count_append, List.count_append, hids] at hcount
    rw [count_owned, count_owned]
    have hpool : (s.move i s.pool d).pool = s.pool := rfl
    rw [hpool]
    omega

theorem Sound.acquire (hs : s.Sound) {a : UserPool.Acquired} {now : Int}
    (h : s.pool.acquire now = (p, a)) : (s.join p a.borrow).Sound := by
  obtain ⟨stale, hidle, hclosed, hcap, hcount, hbound⟩ := UserPool.acquire_eq h
  refine hs.take hidle ?_ rfl hclosed (fun hopen => ?_) (fun hopen => ?_) rfl
  · rw [checkedOut_join]
    exact List.perm_append_comm
  · have hold := hs.bounded (hclosed ▸ hopen)
    rw [hcap]
    omega
  · have hnew := hcount (hclosed ▸ hopen)
    rw [dials_join]
    split at hnew
    all_goals rename_i hd
    all_goals simp only [hd, if_true, if_false, Bool.false_eq_true] at hnew ⊢
    all_goals omega

theorem Sound.poll (hs : s.Sound) {r : UserPool.Polled} {now : Int}
    (hi : s.borrows[i]? = some .waiting) (h : s.pool.poll now = (p, r)) :
    (s.move i p r.borrow).Sound := by
  obtain ⟨stale, hidle, hclosed, hcap, hcount⟩ := UserPool.poll_eq h
  have hdials := dials_move (d := r.borrow) (p := p) hi
  have hno : r.borrow.isDialing = false := by cases r <;> rfl
  refine hs.take hidle (perm_move hi) rfl hclosed (fun hopen => ?_) (fun _ => ?_) rfl
  · have hold := hs.bounded (hclosed ▸ hopen)
    omega
  · rw [hno] at hdials
    simp only [Borrow.isDialing, Bool.false_eq_true, if_false, Nat.add_zero] at hdials
    omega

/-- A dial succeeds: its client is a new one. -/
theorem Sound.dialOk (hs : s.Sound) (hi : s.borrows[i]? = some .dialing) (now : Int) :
    { s.move i s.pool (.holding ⟨s.dialled, true, now⟩) with dialled := s.dialled + 1 }.Sound := by
  have hperm := perm_move (d := .holding ⟨s.dialled, true, now⟩) (p := s.pool) hi
  have hdials := dials_move (d := .holding ⟨s.dialled, true, now⟩) (p := s.pool) hi
  simp only [Borrow.client?, Option.toList_none, Option.toList_some, List.nil_append,
    List.singleton_append] at hperm
  simp only [Borrow.isDialing, if_true, Bool.false_eq_true, if_false] at hdials
  have howned : (s.move i s.pool (.holding ⟨s.dialled, true, now⟩)).owned.Perm
      (s.dialled :: s.owned) := by
    refine ((hperm.append_left s.pool.available).map PooledClient.id).trans ?_
    exact List.perm_middle.map PooledClient.id
  have hlength := hperm.length_eq
  rw [List.length_cons] at hlength
  refine ⟨fun hopen => ?_, hs.bounded, howned.nodup_iff.mpr ?_, fun id hid => ?_⟩
  · have hold := hs.counted hopen
    simp only [move] at hold hlength hdials ⊢
    simp only [checkedOut, dials] at hold hlength hdials ⊢
    omega
  · exact List.nodup_cons.mpr ⟨fun hmem => Nat.lt_irrefl _ (hs.old _ hmem), hs.nodup⟩
  · rcases List.mem_cons.mp (howned.mem_iff.mp hid) with rfl | hmem
    · exact Nat.lt_succ_self _
    · exact Nat.lt_succ_of_lt (hs.old id hmem)

theorem Sound.dialFailed (hs : s.Sound) (hi : s.borrows[i]? = some .dialing) (err : AcquireError) :
    (s.move i s.pool.dialFailed (.failed err)).Sound := by
  have hdials := dials_move (d := .failed err) (p := s.pool.dialFailed) hi
  simp only [Borrow.isDialing, if_true, Bool.false_eq_true, if_false] at hdials
  have hbound := hs.bounded
  have hidle : s.pool.available =
      [] ++ (none : Option PooledClient).toList ++ s.pool.dialFailed.available := rfl
  have hcount : s.pool.dialFailed.activeCount = s.pool.activeCount - 1 := rfl
  refine hs.take hidle (perm_move hi) rfl rfl (fun hopen => ?_) (fun _ => ?_) rfl
  · have hold := hbound hopen
    have hcap : s.pool.dialFailed.maxCapacity = s.pool.maxCapacity := rfl
    omega
  · rw [hcount, List.length_nil]
    omega

theorem Sound.release (hs : s.Sound) {c : PooledClient} (hi : s.borrows[i]? = some (.holding c))
    (now : Int) : (s.move i (s.pool.release now c) .released).Sound := by
  have hperm := perm_move (d := .released) (p := s.pool.release now c) hi
  have hdials := dials_move (d := .released) (p := s.pool.release now c) hi
  simp only [Borrow.client?, Option.toList_none, Option.toList_some, List.nil_append,
    List.singleton_append] at hperm
  simp only [Borrow.isDialing, Bool.false_eq_true, if_false] at hdials
  have hlength := hperm.length_eq
  rw [List.length_cons] at hlength
  have hpool : (s.move i (s.pool.release now c) .released).pool = s.pool.release now c := rfl
  have hids := fun id => (hperm.map PooledClient.id).count_eq id
  simp only [List.map_cons] at hids
  by_cases hclosed : s.pool.closed = true
  · refine hs.of_count (fun hopen => ?_) (fun id => ?_) rfl
    · rw [hpool, UserPool.release, if_pos hclosed] at hopen
      exact absurd (hclosed.symm.trans hopen) (by decide)
    · have hid := hids id
      rw [List.count_cons] at hid
      rw [count_owned, count_owned, hpool, UserPool.release, if_pos hclosed]
      rw [UserPool.release, if_pos hclosed] at hid
      simp only
      omega
  · refine hs.of_count (fun hopen => ?_) (fun id => ?_) rfl
    · have hold : s.pool.closed = false := by simpa using hclosed
      have hb := hs.bounded hold
      rw [hpool, UserPool.release, if_neg hclosed]
      simp only [List.length_cons]
      rw [UserPool.release, if_neg hclosed] at hlength hdials
      exact ⟨hold, hb, by omega⟩
    · have hid := hids id
      rw [List.count_cons] at hid
      rw [count_owned, count_owned, hpool, UserPool.release, if_neg hclosed]
      rw [UserPool.release, if_neg hclosed] at hid
      simp only [List.map_cons, List.count_cons] at hid ⊢
      omega

/-- The pool is closed. -/
theorem Sound.shut (hs : s.Sound) {p : UserPool} (hclosed : p.closed = true)
    (hidle : p.available = []) : { s with pool := p }.Sound := by
  refine hs.of_count (fun hopen => absurd (hclosed.symm.trans hopen) (by decide)) (fun id => ?_) rfl
  rw [count_owned, count_owned, hidle, List.map_nil, List.count_nil]
  simp only [checkedOut]
  omega

/-- **Every step** keeps the invariant. -/
theorem Sound.step (hs : s.Sound) {a : PoolAction} (h : s.step a = some s') : s'.Sound := by
  cases a with
  | acquire now =>
    rw [PoolState.step] at h
    cases ha : s.pool.acquire now with
    | mk p r =>
      have hsound := hs.acquire ha
      rw [ha] at h
      cases r <;> (obtain rfl := Option.some.inj h; exact hsound)
  | dialOk i now =>
    simp only [PoolState.step] at h
    split at h
    · next hi =>
      obtain rfl := Option.some.inj h
      exact hs.dialOk hi now
    · cases h
  | dialErr i err =>
    simp only [PoolState.step] at h
    split at h
    · next hi =>
      obtain rfl := Option.some.inj h
      exact hs.dialFailed hi _
    · cases h
  | poll i now =>
    simp only [PoolState.step] at h
    split at h
    · next hi =>
      cases hp : s.pool.poll now with
      | mk p r =>
        have hsound := hs.poll hi hp
        rw [hp] at h
        cases r <;> (obtain rfl := Option.some.inj h; exact hsound)
    · cases h
  | giveUp i cancelled =>
    simp only [PoolState.step] at h
    split at h
    · next hi =>
      obtain rfl := Option.some.inj h
      exact hs.goOn hi rfl rfl rfl
    · cases h
  | use i now rawClient =>
    simp only [PoolState.step] at h
    split at h
    · next c hi =>
      obtain rfl := Option.some.inj h
      exact hs.goOn hi rfl rfl rfl
    · cases h
  | release i now =>
    simp only [PoolState.step] at h
    split at h
    · next c hi =>
      obtain rfl := Option.some.inj h
      exact hs.release hi now
    · cases h
  | close =>
    obtain rfl := Option.some.inj h
    rw [UserPool.close]
    by_cases hclosed : s.pool.closed = true
    · rw [if_pos hclosed]
      exact hs
    · rw [if_neg hclosed]
      exact hs.shut rfl rfl
  | janitor now =>
    obtain rfl := Option.some.inj h
    rw [UserPool.janitor]
    split
    · exact hs.shut rfl rfl
    · exact hs

/-- The capacity stays as it was configured. -/
theorem maxCapacity_step {a : PoolAction} (h : s.step a = some s') :
    s'.pool.maxCapacity = s.pool.maxCapacity := by
  cases a with
  | acquire now =>
    rw [PoolState.step] at h
    cases ha : s.pool.acquire now with
    | mk p r =>
      obtain ⟨-, -, -, hcap, -⟩ := UserPool.acquire_eq ha
      rw [ha] at h
      cases r <;> (obtain rfl := Option.some.inj h; exact hcap)
  | poll i now =>
    simp only [PoolState.step] at h
    split at h
    · cases hp : s.pool.poll now with
      | mk p r =>
        obtain ⟨-, -, -, hcap, -⟩ := UserPool.poll_eq hp
        rw [hp] at h
        cases r <;> (obtain rfl := Option.some.inj h; exact hcap)
    · cases h
  | release i now =>
    simp only [PoolState.step] at h
    split at h
    · obtain rfl := Option.some.inj h
      simp only [move, UserPool.release]
      split <;> rfl
    · cases h
  | close =>
    obtain rfl := Option.some.inj h
    simp only [UserPool.close]
    split <;> rfl
  | janitor now =>
    obtain rfl := Option.some.inj h
    simp only [UserPool.janitor]
    split <;> rfl
  | dialOk i now | dialErr i err | giveUp i cancelled | use i now rawClient =>
    simp only [PoolState.step] at h
    split at h
    · obtain rfl := Option.some.inj h
      rfl
    · cases h

theorem maxCapacity_run {actions : List PoolAction} (h : PoolState.run actions s = some s') :
    s'.pool.maxCapacity = s.pool.maxCapacity := by
  induction actions generalizing s with
  | nil =>
    obtain rfl := Option.some.inj h
    rfl
  | cons a actions ih =>
    rw [PoolState.run] at h
    obtain ⟨s₁, ha, hrest⟩ := Option.bind_eq_some_iff.mp h
    rw [ih hrest, maxCapacity_step ha]

/-- A closed pool stays closed. -/
theorem closed_step {a : PoolAction} (h : s.step a = some s') (hclosed : s.pool.closed = true) :
    s'.pool.closed = true := by
  cases a with
  | acquire now =>
    rw [PoolState.step] at h
    cases ha : s.pool.acquire now with
    | mk p r =>
      obtain ⟨-, -, hkept, -⟩ := UserPool.acquire_eq ha
      rw [ha] at h
      cases r <;> (obtain rfl := Option.some.inj h; exact hkept.trans hclosed)
  | poll i now =>
    simp only [PoolState.step] at h
    split at h
    · cases hp : s.pool.poll now with
      | mk p r =>
        obtain ⟨-, -, hkept, -⟩ := UserPool.poll_eq hp
        rw [hp] at h
        cases r <;> (obtain rfl := Option.some.inj h; exact hkept.trans hclosed)
    · cases h
  | release i now =>
    simp only [PoolState.step] at h
    split at h
    · obtain rfl := Option.some.inj h
      simp only [move, UserPool.release]
      split <;> exact hclosed
    · cases h
  | close =>
    obtain rfl := Option.some.inj h
    simp only [UserPool.close, if_pos hclosed]
    exact hclosed
  | janitor now =>
    obtain rfl := Option.some.inj h
    simp only [UserPool.janitor]
    split
    · rfl
    · exact hclosed
  | dialOk i now | dialErr i err | giveUp i cancelled | use i now rawClient =>
    simp only [PoolState.step] at h
    split at h
    · obtain rfl := Option.some.inj h
      exact hclosed
    · cases h

theorem sound_init (maxCap idleTimeout now : Int) : (init maxCap idleTimeout now).Sound where
  counted _ := rfl
  bounded _ := by
    simp only [init, newUserPool]
    split <;> omega
  nodup := List.nodup_nil
  old id hid := by cases hid

/-- **Every run** keeps the invariant. -/
theorem Sound.run (hs : s.Sound) {actions : List PoolAction}
    (h : PoolState.run actions s = some s') : s'.Sound := by
  induction actions generalizing s with
  | nil =>
    obtain rfl := Option.some.inj h
    exact hs
  | cons a actions ih =>
    rw [PoolState.run] at h
    obtain ⟨s₁, ha, hrest⟩ := Option.bind_eq_some_iff.mp h
    exact ih (hs.step ha) hrest

/-- **The pool.** After whatever has happened, the counter of an open pool is the number of its
clients that are idle, checked out or being dialled; it is within the capacity and not
negative. No client is checked out twice, idle twice, or both. -/
theorem activeCount_eq_and_owned {maxCap idleTimeout now : Int} {actions : List PoolAction}
    (h : run actions (init maxCap idleTimeout now) = some s) :
    (s.pool.closed = false →
      s.pool.activeCount = s.pool.available.length + s.checkedOut.length + s.dials ∧
      s.pool.activeCount ≤ (newUserPool maxCap idleTimeout now).maxCapacity ∧
      0 ≤ s.pool.activeCount) ∧
    (∀ (i j : Nat) (c c' : PooledClient), s.borrows[i]? = some (.holding c) →
      s.borrows[j]? = some (.holding c') → c.id = c'.id → i = j) ∧
    (s.pool.available.map PooledClient.id).Nodup ∧
    ∀ (i : Nat) (c : PooledClient), s.borrows[i]? = some (.holding c) →
      ∀ c' ∈ s.pool.available, c'.id ≠ c.id := by
  have hs := (sound_init maxCap idleTimeout now).run h
  have hnodup := hs.nodup
  rw [owned, List.map_append, List.nodup_append] at hnodup
  obtain ⟨hidle, hout, hapart⟩ := hnodup
  refine ⟨fun hopen => ?_, fun i j c c' hi hj hid => ?_, hidle, fun i c hi c' hc' heq => ?_⟩
  · have hcounted := hs.counted hopen
    have hbounded := hs.bounded hopen
    rw [maxCapacity_run h] at hbounded
    exact ⟨hcounted, hbounded, by omega⟩
  · rw [checkedOut, List.map_filterMap] at hout
    exact holding_inj hout hi hj hid
  · have hmem : c ∈ s.checkedOut :=
      List.mem_filterMap.mpr ⟨_, List.mem_of_getElem? hi, rfl⟩
    exact hapart _ (List.mem_map_of_mem hc') _ (List.mem_map_of_mem hmem) heq

/-- A dial that fails, one that succeeds, a release, a client that is idle for too long, and a
second borrower that waits for the first. -/
def busy : List PoolAction :=
  [.acquire 0, .dialErr 0 "refused", .acquire 1, .dialOk 1 2, .release 1 3, .acquire (6 * minute),
    .acquire (6 * minute), .dialOk 2 (6 * minute), .poll 3 (6 * minute)]

/-- With room for one client. -/
theorem activeCount_eq_and_owned_busy :
    ∃ s, run busy (init 1 0 0) = some s ∧ s.pool.closed = false ∧ s.dials = 0 ∧
      s.pool.activeCount = s.pool.available.length + s.checkedOut.length + s.dials ∧
      s.pool.activeCount ≤ 1 ∧ 0 ≤ s.pool.activeCount := by
  have hrun : (run busy (init 1 0 0)).isSome = true := by decide
  obtain ⟨s, hs⟩ := Option.isSome_iff_exists.mp hrun
  have hopen : ∀ t ∈ run busy (init 1 0 0), t.pool.closed = false ∧ t.dials = 0 := by decide
  obtain ⟨hclosed, hdials⟩ := hopen s hs
  exact ⟨s, hs, hclosed, hdials, (activeCount_eq_and_owned hs).1 hclosed⟩

end PoolState

end E2Mail.Imap
