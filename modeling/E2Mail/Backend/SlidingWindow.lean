import E2Mail.Backend.AttemptLimit

/-!
# The failure limiter and the sliding window

The limiter keeps the failures under a key, and drops some of them whenever it looks at them.
The sliding window keeps them all, and counts those that are young enough.

* `Failures` — the specification: every failure since the last reset.
* `Agrees` — the limiter has, in each key's window, what the specification has.
* `agrees_step`, `answers_eq` — what a call preserves, and what a run of calls answers.
-/

namespace E2Mail.Backend

/-- The windows that the keys are used with: one each, of an hour at most. -/
structure Windows where
  of : String → Nat
  le_hour : ∀ key, of key ≤ 60 * minute

/-- A call of the limiter. -/
inductive LimiterOp where
  /-- `Blocked`, with the window of the key -/
  | blocked (key : String) (maxFailures : Nat)
  /-- `RecordFailure` -/
  | recordFailure (key : String)
  /-- `Reset` -/
  | reset (key : String)
  deriving DecidableEq

/-- A call and its time. -/
structure TimedOp where
  now : Nat
  op : LimiterOp
  deriving DecidableEq

/-- The calls are made one after the other. -/
def CallsInOrder (ops : List TimedOp) : Prop := ops.Pairwise fun a b => a.now ≤ b.now

/-! ## The limiter -/

/-- What a call answers, and the limiter after it. -/
def AttemptLimiter.call (W : Windows) (l : AttemptLimiter) (c : TimedOp) : Option Bool × AttemptLimiter :=
  match c.op with
  | .blocked key maxFailures =>
    let (answer, l) := l.blocked c.now key maxFailures (W.of key)
    (some answer, l)
  | .recordFailure key => (none, l.recordFailure c.now key)
  | .reset key => (none, l.reset key)

/-- What a run of calls answers. -/
def AttemptLimiter.answers (W : Windows) (l : AttemptLimiter) : List TimedOp → List (Option Bool)
  | [] => []
  | c :: ops => (l.call W c).1 :: answers W (l.call W c).2 ops

/-! ## The sliding window -/

/-- The times of the failures that were recorded for a key since its last reset. -/
abbrev Failures : Type := String → List Nat

/-- What a call makes of the failures. -/
def Failures.after (f : Failures) (c : TimedOp) : Failures :=
  match c.op with
  | .blocked _ _ => f
  | .recordFailure key => Function.update f key (f key ++ [c.now])
  | .reset key => Function.update f key []

/-- A key is blocked if enough of its failures are younger than its window. -/
def Failures.answer (W : Windows) (f : Failures) (c : TimedOp) : Option Bool :=
  match c.op with
  | .blocked key maxFailures => some (maxFailures ≤ (f key).countP fun t => c.now < t + W.of key)
  | .recordFailure _ => none
  | .reset _ => none

/-- What the calls are to answer. -/
def Failures.answers (W : Windows) (f : Failures) : List TimedOp → List (Option Bool)
  | [] => []
  | c :: ops => f.answer W c :: answers W (f.after c) ops

/-! ## The refinement -/

variable {W : Windows} {l : AttemptLimiter} {f : Failures} {c : TimedOp} {now later : Nat}

/-- In the window of each key, now and later, the limiter has the failures that there were. -/
def Agrees (W : Windows) (now : Nat) (l : AttemptLimiter) (f : Failures) : Prop :=
  ∀ key later, now ≤ later →
    inWindow later (W.of key) (l.failures key) = inWindow later (W.of key) (f key)

theorem Agrees.mono (h : Agrees W now l f) (hle : now ≤ later) : Agrees W later l f :=
  fun key t ht => h key t (Nat.le_trans hle ht)

theorem agrees_new : Agrees W 0 .new fun _ => [] := fun _ _ _ => rfl

/-- The answer of a call is that of the sliding window. -/
theorem Agrees.answer_eq (h : Agrees W c.now l f) : (l.call W c).1 = f.answer W c := by
  rw [AttemptLimiter.call, Failures.answer]
  cases c.op with
  | blocked key maxFailures =>
    have hwindow : (l.recent c.now key (W.of key)).1.length =
        (f key).countP fun t => c.now < t + W.of key := by
      rw [List.countP_eq_length_filter]
      exact congrArg List.length (h key c.now (Nat.le_refl _))
    exact congrArg (fun n => some (decide (maxFailures ≤ n))) hwindow
  | recordFailure key => rfl
  | reset key => rfl

/-- **One call** drops nothing that is in a window then or later. -/
theorem agrees_step (h : Agrees W c.now l f) : Agrees W c.now (l.call W c).2 (f.after c) := by
  intro k later hle
  rw [AttemptLimiter.call, Failures.after]
  cases c.op with
  | blocked key maxFailures =>
    have hrecent : inWindow later (W.of k) ((l.recent c.now key (W.of key)).2.failures k) =
        inWindow later (W.of k) (l.failures k) :=
      AttemptLimiter.inWindow_recent hle fun hk => by rw [hk]
    exact hrecent.trans (h k later hle)
  | recordFailure key =>
    change _ = inWindow _ _ (Function.update f key (f key ++ [c.now]) k)
    rw [AttemptLimiter.inWindow_recordFailure hle (W.le_hour k), Function.update_apply]
    split
    · rename_i hk
      rw [hk, inWindow, inWindow, List.filter_append, List.filter_append]
      exact congrArg (· ++ _) (hk ▸ h k later hle)
    · exact h k later hle
  | reset key =>
    change _ = inWindow _ _ (Function.update f key [] k)
    rw [AttemptLimiter.failures_reset, Function.update_apply]
    split
    · rfl
    · exact h k later hle

/-- A run from a limiter that agrees. -/
theorem Agrees.answers_eq {ops : List TimedOp} (h : Agrees W now l f) (hlater : ∀ c ∈ ops, now ≤ c.now)
    (horder : CallsInOrder ops) : l.answers W ops = f.answers W ops := by
  induction ops generalizing l f now with
  | nil => rfl
  | cons c ops ih =>
    rw [CallsInOrder, List.pairwise_cons] at horder
    have hnow : Agrees W c.now l f := h.mono (hlater c List.mem_cons_self)
    rw [AttemptLimiter.answers, Failures.answers, hnow.answer_eq, ih (agrees_step hnow) horder.1 horder.2]

/-- **The limiter is a sliding window**: whatever the calls, on whatever keys, each answers as
if nothing had ever been dropped. -/
theorem limiter_answers (W : Windows) {ops : List TimedOp} (horder : CallsInOrder ops) :
    AttemptLimiter.new.answers W ops = Failures.answers W (fun _ => []) ops :=
  agrees_new.answers_eq (fun c _ => Nat.zero_le c.now) horder

/-- A window of a minute for every key. -/
def minuteWindows : Windows := ⟨fun _ => minute, fun _ => Nat.le_mul_of_pos_left minute (Nat.zero_lt_succ _)⟩

/-- A failure, and a check when it has left the window. -/
theorem limiter_answers_minute :
    AttemptLimiter.new.answers minuteWindows
        [⟨5, .recordFailure "login"⟩, ⟨5, .blocked "login" 1⟩, ⟨5 + minute, .blocked "login" 1⟩] =
      [none, some true, some false] := by
  rw [limiter_answers minuteWindows (by simp [CallsInOrder, minute, second])]
  decide

end E2Mail.Backend
