import E2Mail.Imap.Pool

/-!
# Waiting for a connection

A call of `Acquire` that finds the pool at its capacity waits: it looks at the pool on every
tick, and gives up after ten seconds.

* `Tick` — a tick in a run, with what the borrower finds and what it leaves;
* `Served` — no wait ends in a timeout, and none goes on, over something that it could use;
* `Met` — what a tick has to find;
* `served_iff` — a run is served if and only if its ticks are met.

Before the wait `Acquire` goes through all the idle clients and dials when there is room. On a
tick it looks at one of them and does not dial.
-/

namespace E2Mail.Imap

namespace UserPool

/-- A new borrower gets nothing: no idle client is usable, and there is no room for another. -/
structure Exhausted (p : UserPool) (now : Int) : Prop where
  /-- no idle client is usable -/
  unusable : ∀ c ∈ p.available, p.usable now c = false
  /-- `activeCount` is at `maxCapacity` -/
  full : p.activeCount = p.maxCapacity

/-- What a tick copes with. -/
inductive Met (p : UserPool) (now : Int) : Prop
  /-- the pool is closed -/
  | closed (h : p.closed = true)
  /-- the client that was released last is usable -/
  | usable {c : PooledClient} {rest : List PooledClient} (h : p.available = c :: rest)
      (hc : p.usable now c = true)
  /-- no client is idle, and there is no room for another -/
  | full (h : p.available = []) (hfull : p.activeCount = p.maxCapacity)

variable {p : UserPool} {now : Int}

/-- The test on a tick is that of `Acquire` before it, the other way round. -/
theorem stale_eq (c : PooledClient) :
    (!c.rawClient || decide (p.idleTimeout ≤ now - c.lastUsed)) = !p.usable now c := by
  rw [usable, Bool.not_and, ← decide_not, Bool.or_comm]
  simp only [Int.not_lt]

theorem poll_of_closed (h : p.closed = true) : p.poll now = (p, .closed) := by
  rw [poll, if_pos h]

theorem poll_of_nil (hopen : p.closed = false) (h : p.available = []) :
    p.poll now = (p, .wait) := by
  simp [poll, hopen, h]

theorem poll_of_usable (hopen : p.closed = false) {c : PooledClient} {rest : List PooledClient}
    (h : p.available = c :: rest) (hc : p.usable now c = true) :
    p.poll now = ({ p with available := rest }, .reused c) := by
  have hstale := @stale_eq p now c
  simp only [poll, hopen, h, hstale, hc, Bool.false_eq_true, if_false, Bool.not_true]

theorem poll_of_stale (hopen : p.closed = false) {c : PooledClient} {rest : List PooledClient}
    (h : p.available = c :: rest) (hc : p.usable now c = false) :
    p.poll now =
      ({ p with available := rest, activeCount := p.activeCount - 1 }, .wait) := by
  have hstale := @stale_eq p now c
  simp only [poll, hopen, h, hstale, hc, Bool.false_eq_true, if_false, Bool.not_false, if_true]

/-- A tick that is met, and that the borrower goes on from, found the pool exhausted and
changes nothing. -/
theorem Met.of_wait (h : p.Met now) {p' : UserPool} (hw : p.poll now = (p', .wait)) :
    p' = p ∧ p.Exhausted now := by
  cases h with
  | closed hclosed =>
    rw [poll_of_closed hclosed] at hw
    cases (Prod.mk.inj hw).2
  | @usable c rest hl hc =>
    by_cases hclosed : p.closed = true
    · rw [poll_of_closed hclosed] at hw
      cases (Prod.mk.inj hw).2
    · rw [poll_of_usable (by simpa using hclosed) hl hc] at hw
      cases (Prod.mk.inj hw).2
  | full hl hfull =>
    by_cases hclosed : p.closed = true
    · rw [poll_of_closed hclosed] at hw
      cases (Prod.mk.inj hw).2
    · rw [poll_of_nil (by simpa using hclosed) hl] at hw
      refine ⟨(Prod.mk.inj hw).1.symm, fun c hc => ?_, hfull⟩
      rw [hl] at hc
      cases hc

/-- A tick that leaves a full pool, if the borrower goes on, is met. -/
theorem Met.of_full (hbound : p.closed = false → p.activeCount ≤ p.maxCapacity)
    (h : (p.poll now).2 = .wait → (p.poll now).1.activeCount = (p.poll now).1.maxCapacity) :
    p.Met now := by
  by_cases hclosed : p.closed = true
  · exact .closed hclosed
  · have hopen : p.closed = false := by simpa using hclosed
    cases hl : p.available with
    | nil =>
      rw [poll_of_nil hopen hl] at h
      exact .full hl (h rfl)
    | cons c rest =>
      cases hc : p.usable now c with
      | true => exact .usable hl hc
      | false =>
        -- the client is closed, and its room is left unused
        rw [poll_of_stale hopen hl hc] at h
        have hfull := h rfl
        have hle := hbound hopen
        simp only at hfull
        omega

end UserPool

namespace PoolState

variable {s s' t t' start : PoolState} {actions : List PoolAction} {i : Nat} {now : Int}

/-- A run comes to a tick of borrower `i`, which finds `t` and leaves `t'`. -/
structure Tick (start : PoolState) (actions : List PoolAction) (i : Nat) (now : Int)
    (t t' : PoolState) : Prop where
  /-- the run up to the tick -/
  found : ∃ before after, actions = before ++ .poll i now :: after ∧ run before start = some t
  /-- the tick -/
  taken : t.step (.poll i now) = some t'

/-- The waits of a run that has come to `s`. -/
structure Served (start : PoolState) (actions : List PoolAction) (s : PoolState) : Prop where
  /-- a borrower that times out found the pool exhausted on each of its ticks -/
  timeout : ∀ i, s.borrows[i]? = some (.failed .acquireTimeout) →
    ∀ now t t', Tick start actions i now t t' → t.pool.Exhausted now
  /-- a borrower goes on waiting after a tick only if there is no room for a dial -/
  dials : ∀ i now t t', Tick start actions i now t t' → t'.borrows[i]? = some .waiting →
    t'.pool.activeCount = t'.pool.maxCapacity

/-! ## Steps -/

/-- A tick is one of a borrower that waits. -/
theorem step_poll_eq (h : t.step (.poll i now) = some t') :
    t.borrows[i]? = some .waiting ∧
      t' = t.move i (t.pool.poll now).1 (t.pool.poll now).2.borrow := by
  simp only [step] at h
  split at h
  · next hi =>
    refine ⟨hi, ?_⟩
    cases hp : t.pool.poll now with
    | mk p r =>
      rw [hp] at h
      cases r <;> exact (Option.some.inj h).symm
  · cases h

theorem getElem?_move_self (hi : t.borrows[i]?.isSome) (p : UserPool) (b : Borrow) :
    (t.move i p b).borrows[i]? = some b := by
  rw [move, List.getElem?_set_self]
  exact (List.getElem?_eq_some_iff.mp (Option.eq_some_of_isSome hi)).1

/-- The borrower goes on waiting after a tick if and only if the tick brings nothing. -/
theorem waiting_iff (h : t.step (.poll i now) = some t') :
    t'.borrows[i]? = some .waiting ↔ (t.pool.poll now).2 = .wait := by
  obtain ⟨hi, rfl⟩ := step_poll_eq h
  rw [getElem?_move_self (Option.isSome_of_eq_some hi)]
  cases (t.pool.poll now).2 <;> simp [UserPool.Polled.borrow]

end PoolState

namespace Borrow

/-- Neither waiting nor timed out. -/
def past : Borrow → Bool
  | waiting | failed .acquireTimeout => false
  | _ => true

end Borrow

namespace PoolState

variable {s s' t t' start : PoolState} {actions : List PoolAction} {i : Nat} {now : Int}

/-- Borrower `i` does not wait any more, and has not timed out. -/
def Past (s : PoolState) (i : Nat) : Prop := ∃ b, s.borrows[i]? = some b ∧ b.past = true

theorem Past.join (h : s.Past i) (p : UserPool) (b : Borrow) : (s.join p b).Past i := by
  obtain ⟨d, hd, hpast⟩ := h
  refine ⟨d, ?_, hpast⟩
  rw [PoolState.join, List.getElem?_append_left (List.getElem?_eq_some_iff.mp hd).1]
  exact hd

/-- A borrower goes on, and is past its wait after that if it was before. -/
theorem Past.move (h : s.Past i) {j : Nat} {p : UserPool} {b d : Borrow}
    (hj : s.borrows[j]? = some b) (hd : b.past = true → d.past = true) : (s.move j p d).Past i := by
  obtain ⟨e, he, hpast⟩ := h
  by_cases hij : j = i
  · subst hij
    obtain rfl := Option.some.inj (hj.symm.trans he)
    exact ⟨d, getElem?_move_self (Option.isSome_of_eq_some hj) p d, hd hpast⟩
  · exact ⟨e, by rw [PoolState.move, List.getElem?_set_ne hij, he], hpast⟩

/-- **No step** takes a borrower back to its wait. -/
theorem Past.step (h : s.Past i) {a : PoolAction} (ha : s.step a = some s') : s'.Past i := by
  cases a with
  | acquire now =>
    rw [PoolState.step] at ha
    cases hq : s.pool.acquire now with
    | mk p r =>
      rw [hq] at ha
      cases r <;> (obtain rfl := Option.some.inj ha; exact h.join _ _)
  | dialOk j now =>
    simp only [PoolState.step] at ha
    split at ha
    · next hj =>
      obtain rfl := Option.some.inj ha
      have hmove := h.move (p := s.pool) (d := .holding ⟨s.dialled, true, now⟩) hj (fun _ => rfl)
      exact hmove
    · cases ha
  | dialErr j err =>
    simp only [PoolState.step] at ha
    split at ha
    · next hj =>
      obtain rfl := Option.some.inj ha
      exact h.move hj (fun _ => rfl)
    · cases ha
  | poll j now =>
    obtain ⟨hj, rfl⟩ := step_poll_eq ha
    exact h.move hj (fun hpast => by cases hpast)
  | giveUp j cancelled =>
    simp only [PoolState.step] at ha
    split at ha
    · next hj =>
      obtain rfl := Option.some.inj ha
      exact h.move hj (fun hpast => by cases hpast)
    · cases ha
  | use j now rawClient | release j now =>
    simp only [PoolState.step] at ha
    split at ha
    · next hj =>
      obtain rfl := Option.some.inj ha
      exact h.move hj (fun _ => rfl)
    · cases ha
  | close | janitor now =>
    obtain rfl := Option.some.inj ha
    exact h

/-! ## Runs -/

theorem Past.run (h : s.Past i) (hr : PoolState.run actions s = some s') : s'.Past i := by
  induction actions generalizing s with
  | nil =>
    obtain rfl := Option.some.inj hr
    exact h
  | cons a actions ih =>
    rw [PoolState.run] at hr
    obtain ⟨s₁, ha, hrest⟩ := Option.bind_eq_some_iff.mp hr
    exact ih (h.step ha) hrest

theorem run_append (before after : List PoolAction) :
    run (before ++ after) s = (run before s).bind (run after) := by
  induction before generalizing s with
  | nil => rfl
  | cons a before ih =>
    rw [List.cons_append, run, run, Option.bind_assoc]
    exact congrArg _ (funext fun s => ih)

/-- The run goes on from a tick to its end. -/
theorem Tick.rest (h : Tick start actions i now t t') (hr : run actions start = some s) :
    ∃ after, run after t' = some s := by
  obtain ⟨before, after, rfl, hb⟩ := h.found
  rw [run_append, hb, Option.bind_some, run, h.taken, Option.bind_some] at hr
  exact ⟨after, hr⟩

/-- A borrower that times out in the end goes on waiting after each of its ticks. -/
theorem Tick.waiting (h : Tick start actions i now t t') (hr : run actions start = some s)
    (hi : s.borrows[i]? = some (.failed .acquireTimeout)) : (t.pool.poll now).2 = .wait := by
  obtain ⟨after, hrest⟩ := h.rest hr
  obtain ⟨hwait, rfl⟩ := step_poll_eq h.taken
  have hself := getElem?_move_self (Option.isSome_of_eq_some hwait) (t.pool.poll now).1
    (t.pool.poll now).2.borrow
  cases hp : (t.pool.poll now).2 with
  | wait => rfl
  | closed | reused c =>
    -- it has its answer, and keeps it
    rw [hp] at hself hrest
    obtain ⟨b, hb, hpast⟩ := Past.run ⟨_, hself, rfl⟩ hrest
    obtain rfl := Option.some.inj (hi.symm.trans hb)
    cases hpast

/-- **The wait of `Acquire`.** In a run of the pool nobody times out and nobody goes on waiting
over an idle client or over room for a dial, if and only if each tick in an open pool finds that
the client released last is usable, or that none is idle and the pool is full. -/
theorem served_iff {maxCap idleTimeout begun : Int}
    (h : run actions (init maxCap idleTimeout begun) = some s) :
    Served (init maxCap idleTimeout begun) actions s ↔
      ∀ i now t t', Tick (init maxCap idleTimeout begun) actions i now t t' → t.pool.Met now := by
  constructor
  · intro hserved i now t t' ht
    obtain ⟨before, after, -, hb⟩ := ht.found
    have hsound := (sound_init maxCap idleTimeout begun).run hb
    refine .of_full hsound.bounded (fun hwait => ?_)
    have hfull := hserved.dials i now t t' ht ((waiting_iff ht.taken).mpr hwait)
    obtain ⟨-, rfl⟩ := step_poll_eq ht.taken
    exact hfull
  · intro hmet
    refine ⟨fun i hi now t t' ht => ?_, fun i now t t' ht hwaiting => ?_⟩
    · have hwait := ht.waiting h hi
      exact ((hmet i now t t' ht).of_wait (Prod.ext rfl hwait)).2
    · have hwait := (waiting_iff ht.taken).mp hwaiting
      obtain ⟨hsame, hexhausted⟩ := (hmet i now t t' ht).of_wait (Prod.ext rfl hwait)
      obtain ⟨-, rfl⟩ := step_poll_eq ht.taken
      have hpool : (t.move i (t.pool.poll now).1 (t.pool.poll now).2.borrow).pool = t.pool := hsame
      rw [hpool]
      exact hexhausted.full

/-- One borrower dials and another waits for it. The one releases its client, the other gets it. -/
def handedOver : List PoolAction :=
  [.acquire 0, .acquire 0, .dialOk 0 1, .release 0 2, .poll 1 3]

/-- With room for one client. -/
theorem served_iff_handedOver :
    ∃ s, run handedOver (init 1 0 0) = some s ∧ Served (init 1 0 0) handedOver s := by
  have hrun : (run handedOver (init 1 0 0)).isSome = true := by decide
  obtain ⟨s, hs⟩ := Option.isSome_iff_exists.mp hrun
  refine ⟨s, hs, (served_iff hs).mpr (fun i now t t' ht => ?_)⟩
  obtain ⟨before, after, hsplit, hb⟩ := ht.found
  obtain ⟨rfl, rfl, rfl, -⟩ : before = handedOver.take 4 ∧ i = 1 ∧ now = 3 ∧ after = [] := by
    rw [handedOver] at hsplit
    simp only [List.cons_eq_append_iff] at hsplit
    simpa [and_assoc, handedOver] using hsplit
  have hfound : ∀ t ∈ run (handedOver.take 4) (init 1 0 0),
      t.pool.available = [⟨0, true, 2⟩] ∧ t.pool.usable 3 ⟨0, true, 2⟩ = true := by decide
  obtain ⟨hl, hc⟩ := hfound t hb
  exact .usable hl hc

/-- One borrower dials and another waits for it. The dial fails. -/
def refused : List PoolAction :=
  [.acquire 0, .acquire 0, .dialErr 0 "refused", .poll 1 1, .giveUp 1 false]

/-- The other times out, with room for a dial on its tick. -/
theorem not_served : ¬ ∀ (maxCap idleTimeout begun : Int) (actions : List PoolAction) (s : PoolState),
    run actions (init maxCap idleTimeout begun) = some s →
      Served (init maxCap idleTimeout begun) actions s := by
  intro h
  have hrun : (run refused (init 1 0 0)).isSome = true := by decide
  obtain ⟨s, hs⟩ := Option.isSome_iff_exists.mp hrun
  have hlast : ∀ s ∈ run refused (init 1 0 0), s.borrows[1]? = some (.failed .acquireTimeout) := by
    decide
  have htick : ((run (refused.take 3) (init 1 0 0)).bind (step · (.poll 1 1))).isSome = true := by
    decide
  obtain ⟨t', ht'⟩ := Option.isSome_iff_exists.mp htick
  obtain ⟨t, ht, htaken⟩ := Option.bind_eq_some_iff.mp ht'
  have hroom : ∀ t ∈ run (refused.take 3) (init 1 0 0), t.pool.activeCount ≠ t.pool.maxCapacity := by
    decide
  have hserved := h 1 0 0 refused s hs
  exact hroom t ht (hserved.timeout 1 (hlast s hs) 1 t t' ⟨⟨_, _, rfl, ht⟩, htaken⟩).full

end PoolState

end E2Mail.Imap
