import Mathlib.Data.List.Nodup
import E2Mail.Lib.Prog

/-!
# Interleaved runs

Several programs over one signature share a state. Any program may make the
next call, so a run is an arbitrary interleaving of their calls; a program that
has made no call yet has not arrived, which is how requests that come in later
are covered. The index type of the programs is arbitrary, hence so is their
number.

A run carries its trace: who called what, with which answer, and the states
around the call. Statements about runs are statements about traces, and two
rules prove them: `Run.invariant` for what every step preserves, and
`Run.along` for what a program's own history says about its next call.
-/

namespace E2Mail.Lib

variable {ι S Op : Type} {Ans : Op → Type} {α : Type}

/-- What one call may do: from a state, answer and leave a state. -/
abbrev Sem (S Op : Type) (Ans : Op → Type) : Type := (o : Op) → S → Ans o → S → Prop

/-- The shared state and what every program has left to do. -/
structure Conf (ι S Op : Type) (Ans : Op → Type) (α : Type) where
  /-- the shared state -/
  state : S
  /-- the programs in flight -/
  procs : ι → Prog Op Ans α

/-- One call of a run. -/
structure Entry (ι S Op : Type) (Ans : Op → Type) where
  /-- the program that called -/
  who : ι
  /-- the operation -/
  op : Op
  /-- the answer it got -/
  ans : Ans op
  /-- the state before -/
  pre : S
  /-- the state after -/
  post : S

/-- The call and answer of an entry. -/
def Entry.event (e : Entry ι S Op Ans) : Event Op Ans := ⟨e.op, e.ans⟩

variable [DecidableEq ι]

/-- The history of program `i` in a trace. -/
def proj (i : ι) (tr : List (Entry ι S Op Ans)) : List (Event Op Ans) :=
  (tr.filter fun e => e.who = i).map Entry.event

@[simp] theorem proj_nil (i : ι) : proj i ([] : List (Entry ι S Op Ans)) = [] := rfl

theorem proj_append (i : ι) (tr tr' : List (Entry ι S Op Ans)) :
    proj i (tr ++ tr') = proj i tr ++ proj i tr' := by
  rw [proj, List.filter_append, List.map_append]
  rfl

theorem proj_snoc_self (tr : List (Entry ι S Op Ans)) (e : Entry ι S Op Ans) :
    proj e.who (tr ++ [e]) = proj e.who tr ++ [e.event] := by
  simp [proj]

theorem proj_snoc_ne {i : ι} (tr : List (Entry ι S Op Ans)) {e : Entry ι S Op Ans}
    (h : e.who ≠ i) : proj i (tr ++ [e]) = proj i tr := by
  simp [proj, h]

/-- An event of a program's history is one of the trace's entries. -/
theorem mem_proj {i : ι} {tr : List (Entry ι S Op Ans)} {v : Event Op Ans} :
    v ∈ proj i tr ↔ ∃ e ∈ tr, e.who = i ∧ e.event = v := by
  simp [proj, and_assoc]

/-- A cut of a program's history is a cut of the trace. -/
theorem proj_eq_append {i : ι} {tr : List (Entry ι S Op Ans)} {h₁ h₂ : List (Event Op Ans)}
    (h : proj i tr = h₁ ++ h₂) :
    ∃ tr₁ tr₂, tr = tr₁ ++ tr₂ ∧ proj i tr₁ = h₁ ∧ proj i tr₂ = h₂ := by
  obtain ⟨l₁, l₂, hl, h₁', h₂'⟩ := List.map_eq_append_iff.mp h
  obtain ⟨tr₁, tr₂, htr, ht₁, ht₂⟩ := List.filter_eq_append_iff.mp hl
  exact ⟨tr₁, tr₂, htr, by rw [proj, ht₁, h₁'], by rw [proj, ht₂, h₂']⟩

/-- The first event of a program's history is at the program's first entry. -/
theorem proj_eq_cons {i : ι} {tr : List (Entry ι S Op Ans)} {v : Event Op Ans}
    {h : List (Event Op Ans)} (hp : proj i tr = v :: h) :
    ∃ a e b, tr = a ++ e :: b ∧ proj i a = [] ∧ e.who = i ∧ e.event = v ∧ proj i b = h := by
  obtain ⟨e, l, hl, hv, hl'⟩ := List.map_eq_cons_iff.mp hp
  obtain ⟨a, b, htr, ha, he, hb⟩ := List.filter_eq_cons_iff.mp hl
  refine ⟨a, e, b, htr, ?_, by simpa using he, hv, by rw [proj, hb, hl']⟩
  rw [proj, List.filter_eq_nil_iff.mpr ha, List.map_nil]

/-- Of the entries of a kind there is a last one. -/
theorem exists_last {β : Type} {p : β → Prop} {l : List β} (h : ∃ a ∈ l, p a) :
    ∃ l₁ a l₂, l = l₁ ++ a :: l₂ ∧ p a ∧ ∀ b ∈ l₂, ¬p b := by
  induction l with
  | nil =>
    obtain ⟨a, ha, -⟩ := h
    cases ha
  | cons b l ih =>
    by_cases hrest : ∃ a ∈ l, p a
    · obtain ⟨l₁, a, l₂, rfl, ha, hl₂⟩ := ih hrest
      exact ⟨b :: l₁, a, l₂, rfl, ha, hl₂⟩
    · obtain ⟨a, ha, hp⟩ := h
      rcases List.mem_cons.mp ha with rfl | ha
      · exact ⟨[], a, l, rfl, hp, fun x hx hpx => hrest ⟨x, hx, hpx⟩⟩
      · exact absurd ⟨a, ha, hp⟩ hrest

/-- Of two cuts of a list at different entries one comes first. -/
theorem two_cuts {β : Type} {a b c d : List β} {x y : β} (h : a ++ x :: c = b ++ y :: d)
    (hne : x ≠ y) :
    (∃ m, b = a ++ x :: m ∧ c = m ++ y :: d) ∨ ∃ m, a = b ++ y :: m ∧ d = m ++ x :: c := by
  obtain ⟨m, hb, hm⟩ | ⟨m, ha, hm⟩ := List.append_eq_append_iff.mp h
  · cases m with
    | nil => exact absurd (List.cons.inj hm).1 hne
    | cons z m =>
      obtain ⟨rfl, hc⟩ := List.cons.inj hm
      exact .inl ⟨m, hb, hc⟩
  · cases m with
    | nil => exact absurd (List.cons.inj hm).1.symm hne
    | cons z m =>
      obtain ⟨rfl, hd⟩ := List.cons.inj hm
      exact .inr ⟨m, ha, hd⟩

/-- `Run sem c₀ tr c`: from `c₀`, the calls `tr` lead to `c`. -/
inductive Run (sem : Sem S Op Ans) (c₀ : Conf ι S Op Ans α) :
    List (Entry ι S Op Ans) → Conf ι S Op Ans α → Prop where
  /-- no call yet -/
  | nil : Run sem c₀ [] c₀
  /-- program `i` makes its next call -/
  | snoc {tr : List (Entry ι S Op Ans)} {c : Conf ι S Op Ans α} (h : Run sem c₀ tr c)
      {i : ι} {o : Op} {k : Ans o → Prog Op Ans α} {r : Ans o} {s' : S}
      (hk : c.procs i = .call o k) (hs : sem o c.state r s') :
      Run sem c₀ (tr ++ [⟨i, o, r, c.state, s'⟩]) ⟨s', Function.update c.procs i (k r)⟩

namespace Run

variable {sem : Sem S Op Ans} {c₀ c : Conf ι S Op Ans α} {tr : List (Entry ι S Op Ans)}

/-- What program `i` has behind it in a run is a path of program `i`. -/
theorem path (h : Run sem c₀ tr c) (i : ι) : Path (c₀.procs i) (proj i tr) (c.procs i) := by
  induction h with
  | nil => exact Path.nil _
  | @snoc tr c h j o k r s' hk hs ih =>
    by_cases hij : j = i
    · subst hij
      have hproc : Function.update c.procs j (k r) j = k r := Function.update_self ..
      have hproj : proj j (tr ++ [⟨j, o, r, c.state, s'⟩]) = proj j tr ++ [⟨o, r⟩] :=
        proj_snoc_self tr ⟨j, o, r, c.state, s'⟩
      rw [hk] at ih
      simpa only [hproc, hproj] using ih.snoc r
    · have hproc : Function.update c.procs j (k r) i = c.procs i :=
        Function.update_of_ne (Ne.symm hij) ..
      have hproj : proj i (tr ++ [⟨j, o, r, c.state, s'⟩]) = proj i tr := proj_snoc_ne tr hij
      simpa only [hproc, hproj] using ih

/-- A run cut at one of its calls: the run before it, the program about to
make the call, and what the call did. -/
theorem cut {pre post : List (Entry ι S Op Ans)} {e : Entry ι S Op Ans}
    (h : Run sem c₀ tr c) (htr : tr = pre ++ e :: post) :
    ∃ c₁ : Conf ι S Op Ans α, Run sem c₀ pre c₁ ∧ c₁.state = e.pre ∧
      (∃ k, c₁.procs e.who = .call e.op k) ∧ sem e.op e.pre e.ans e.post := by
  induction h generalizing post with
  | nil => simp at htr
  | @snoc tr c h i o k r s' hk hs ih =>
    rcases List.eq_nil_or_concat post with hnil | ⟨post', x, hpost⟩
    · subst hnil
      obtain ⟨hpre, he⟩ := List.append_inj' htr rfl
      obtain rfl := hpre
      obtain rfl := List.singleton_inj.mp he
      exact ⟨c, h, rfl, ⟨k, hk⟩, hs⟩
    · rw [List.concat_eq_append] at hpost
      rw [hpost, ← List.cons_append, ← List.append_assoc] at htr
      exact ih (List.append_inj' htr rfl).1

/-- Every entry of a run does what its call may do. -/
theorem sem_of_mem (h : Run sem c₀ tr c) {e : Entry ι S Op Ans} (he : e ∈ tr) :
    sem e.op e.pre e.ans e.post := by
  obtain ⟨pre, post, htr⟩ := List.append_of_mem he
  obtain ⟨-, -, -, -, hs⟩ := h.cut htr
  exact hs

/-- An event of a program's history was a call of the run. -/
theorem cut_of_proj (h : Run sem c₀ tr c) {i : ι} {o : Op} {r : Ans o}
    (hv : (⟨o, r⟩ : Event Op Ans) ∈ proj i tr) :
    ∃ pre s s' post, tr = pre ++ ⟨i, o, r, s, s'⟩ :: post ∧ sem o s r s' := by
  obtain ⟨⟨who, op, ans, s, s'⟩, he, rfl, hev⟩ := mem_proj.mp hv
  cases hev
  obtain ⟨pre, post, htr⟩ := List.append_of_mem he
  exact ⟨pre, s, s', post, htr, h.sem_of_mem he⟩

/-- A property of the trace and the state that holds at the start and that
every call preserves holds at the end. The step premise may use the run up to
the call. -/
theorem invariant {I : List (Entry ι S Op Ans) → S → Prop} (h0 : I [] c₀.state)
    (hstep : ∀ tr (c : Conf ι S Op Ans α) (e : Entry ι S Op Ans), Run sem c₀ tr c →
      c.state = e.pre → (∃ k, c.procs e.who = .call e.op k) →
      sem e.op e.pre e.ans e.post → I tr e.pre → I (tr ++ [e]) e.post)
    (h : Run sem c₀ tr c) : I tr c.state := by
  induction h with
  | nil => exact h0
  | @snoc tr c h i o k r s' hk hs ih =>
    exact hstep tr c ⟨i, o, r, c.state, s'⟩ h rfl ⟨k, hk⟩ hs ih

/-- A program that has ended makes no more calls. -/
theorem finished (h : Run sem c₀ tr c) {i : ι} {a : α} (ha : c₀.procs i = .ret a) :
    proj i tr = [] := by
  have hpath := h.path i
  rw [ha] at hpath
  exact hpath.of_ret.1

/-- A run is a run to any of its points and a run from there. -/
theorem split {pre post : List (Entry ι S Op Ans)} (h : Run sem c₀ tr c) (htr : tr = pre ++ post) :
    ∃ c₁ : Conf ι S Op Ans α, Run sem c₀ pre c₁ ∧ Run sem c₁ post c := by
  induction h generalizing post with
  | nil =>
    obtain ⟨rfl, rfl⟩ := List.append_eq_nil_iff.mp htr.symm
    exact ⟨c₀, nil, nil⟩
  | @snoc tr c h i o k r s' hk hs ih =>
    rcases List.eq_nil_or_concat post with hnil | ⟨post', x, hpost⟩
    · rw [hnil, List.append_nil] at htr
      exact ⟨_, htr ▸ h.snoc hk hs, hnil ▸ nil⟩
    · rw [List.concat_eq_append] at hpost
      rw [hpost, ← List.append_assoc] at htr
      obtain ⟨htr', hx⟩ := List.append_inj' htr rfl
      obtain ⟨c₁, hpre, hrest⟩ := ih htr'
      obtain rfl := List.singleton_inj.mp hx
      exact ⟨c₁, hpre, hpost ▸ hrest.snoc hk hs⟩

/-- A run cut after one of its calls: the run from the state that call left. -/
theorem split_after {pre post : List (Entry ι S Op Ans)} {e : Entry ι S Op Ans}
    (h : Run sem c₀ tr c) (htr : tr = pre ++ e :: post) :
    ∃ c₁ : Conf ι S Op Ans α, c₁.state = e.post ∧ Run sem c₁ post c := by
  have hcut : tr = (pre ++ [e]) ++ post := by simp [htr]
  obtain ⟨c₁, hpre, hpost⟩ := h.split hcut
  refine ⟨c₁, ?_, hpost⟩
  generalize hl : pre ++ [e] = l at hpre
  cases hpre with
  | nil => simp at hl
  | snoc h hk hs =>
    obtain ⟨-, he⟩ := List.append_inj' hl rfl
    rw [List.singleton_inj.mp he]

/-- What a call establishes and every later call keeps holds from there on. The
step premise may use that it held before the calls in between. -/
theorem holds_after {I : S → Prop} {pre post : List (Entry ι S Op Ans)} {e : Entry ι S Op Ans}
    (h : Run sem c₀ tr c) (htr : tr = pre ++ e :: post) (h0 : I e.post)
    (hstep : ∀ a x b, post = a ++ x :: b → (∀ z ∈ a, I z.pre) → I x.pre → I x.post) :
    I c.state ∧ ∀ z ∈ post, I z.pre := by
  obtain ⟨c₁, hstate, hpost⟩ := h.split_after htr
  rw [← hstate] at h0
  clear htr h hstate
  induction hpost with
  | nil => exact ⟨h0, fun z hz => absurd hz List.not_mem_nil⟩
  | @snoc tr c h i o k r s' hk hs ih =>
    obtain ⟨hc, hbefore⟩ := ih fun a x b hab => hstep a x (b ++ [⟨i, o, r, c.state, s'⟩]) (by simp [hab])
    refine ⟨hstep tr ⟨i, o, r, c.state, s'⟩ [] rfl hbefore hc, fun z hz => ?_⟩
    rcases List.mem_append.mp hz with hz | hz
    · exact hbefore z hz
    · obtain rfl := List.mem_singleton.mp hz
      exact hc

/-- What no call changes is at the end as it was at the start. -/
theorem unchanged {β : Type} {f : S → β} (hf : ∀ e ∈ tr, f e.post = f e.pre)
    (h : Run sem c₀ tr c) : f c.state = f c₀.state := by
  induction h with
  | nil => rfl
  | @snoc tr c h i o k r s' hk hs ih =>
    have hlast := hf ⟨i, o, r, c.state, s'⟩ (by simp)
    exact hlast.trans (ih fun e he => hf e (List.mem_append_left _ he))

/-- What is changed last in a run is at the end as that call left it. -/
theorem last {β : Type} {f : S → β} {pre post : List (Entry ι S Op Ans)} {e : Entry ι S Op Ans}
    (h : Run sem c₀ tr c) (htr : tr = pre ++ e :: post) (hf : ∀ e ∈ post, f e.post = f e.pre) :
    f c.state = f e.post := by
  obtain ⟨c₁, hstate, hpost⟩ := h.split_after htr
  rw [hpost.unchanged hf, hstate]

variable {P : ι → List (Event Op Ans) → Op → Prop} {Q : ι → List (Event Op Ans) → α → Prop}

/-- Every call of a run satisfies what holds along its program. -/
theorem along (hP : ∀ i, Along (P i) (Q i) (c₀.procs i) []) (h : Run sem c₀ tr c)
    {i : ι} {o : Op} {k : Ans o → Prog Op Ans α} (hk : c.procs i = .call o k) :
    P i (proj i tr) o := by
  have hpath := h.path i
  rw [hk] at hpath
  exact ((hP i).path hpath).1

/-- A call of a run satisfies what holds along its own program. -/
theorem rule_at {P : List (Event Op Ans) → Op → Prop} {Q : List (Event Op Ans) → α → Prop}
    {pre post : List (Entry ι S Op Ans)} {e : Entry ι S Op Ans} (h : Run sem c₀ tr c)
    (htr : tr = pre ++ e :: post) (hP : Along P Q (c₀.procs e.who) []) : P (proj e.who pre) e.op := by
  have hproj : proj e.who tr = proj e.who pre ++ e.event :: proj e.who post := by
    rw [htr, proj_append]
    simp [proj]
  exact hP.rule (h.path e.who) hproj

/-- Every program that has finished satisfies what holds along it. -/
theorem along_ret (hP : ∀ i, Along (P i) (Q i) (c₀.procs i) []) (h : Run sem c₀ tr c)
    {i : ι} {a : α} (ha : c.procs i = .ret a) : Q i (proj i tr) a := by
  have hpath := h.path i
  rw [ha] at hpath
  exact (hP i).path hpath

/-- If no program makes a second call of the kind `q`, such calls have distinct callers. -/
theorem nodup_who {q : Op → Bool} (hP : ∀ i, Along (P i) (Q i) (c₀.procs i) [])
    (honce : ∀ i h o, P i h o → q o = true → ∀ v ∈ h, q v.1 = false) (h : Run sem c₀ tr c) :
    ((tr.filter fun e => q e.op).map Entry.who).Nodup := by
  induction h with
  | nil => exact List.nodup_nil
  | @snoc tr c h i o k r s' hk hs ih =>
    rw [List.filter_append, List.map_append]
    rcases hq : q o with _ | _
    · simpa [hq] using ih
    · have hold := honce i _ o (h.along hP hk) hq
      have hnew : i ∉ (tr.filter fun e => q e.op).map Entry.who := by
        intro hmem
        obtain ⟨e, he, rfl⟩ := List.mem_map.mp hmem
        obtain ⟨htr, hqe⟩ := List.mem_filter.mp he
        have := hold e.event (mem_proj.mpr ⟨e, htr, rfl, rfl⟩)
        exact Bool.false_ne_true (this.symm.trans hqe)
      simpa [hq, List.concat_eq_append] using List.Nodup.concat hnew ih

/-- A measure that no call raises pays for every call that lowers it. -/
theorem countP_lowers_le {m : S → Nat} (hm : ∀ e ∈ tr, m e.post ≤ m e.pre)
    (h : Run sem c₀ tr c) :
    (tr.countP fun e => decide (m e.post < m e.pre)) + m c.state ≤ m c₀.state := by
  induction h with
  | nil => simp
  | @snoc tr c h i o k r s' hk hs ih =>
    have hrest := ih fun e he => hm e (List.mem_append_left _ he)
    have hlast : m s' ≤ m c.state := hm ⟨i, o, r, c.state, s'⟩ (by simp)
    rw [List.countP_append, List.countP_singleton]
    by_cases hlt : m s' < m c.state
    · simp only [hlt, decide_true, if_true]
      omega
    · simp only [hlt, decide_false, Bool.false_eq_true, if_false]
      omega

end Run

/-! ## Scheduled runs

A schedule names who calls next; with a function for what a call does it
determines a run, which lets a concrete interleaving be evaluated. -/

/-- Run the programs by a schedule; a program that is stuck or finished is passed over. -/
def schedule (exec : (o : Op) → S → Option (Ans o × S)) :
    List ι → List (Entry ι S Op Ans) → Conf ι S Op Ans α →
      List (Entry ι S Op Ans) × Conf ι S Op Ans α
  | [], tr, c => (tr, c)
  | i :: is, tr, c =>
    match c.procs i with
    | .ret _ => schedule exec is tr c
    | .call o k =>
      match exec o c.state with
      | none => schedule exec is tr c
      | some (r, s') =>
        schedule exec is (tr ++ [⟨i, o, r, c.state, s'⟩]) ⟨s', Function.update c.procs i (k r)⟩

/-- A scheduled run is a run. -/
theorem Run.of_schedule {sem : Sem S Op Ans} {exec : (o : Op) → S → Option (Ans o × S)}
    (hexec : ∀ o s r s', exec o s = some (r, s') → sem o s r s')
    {c₀ : Conf ι S Op Ans α} (is : List ι) :
    ∀ {tr : List (Entry ι S Op Ans)} {c : Conf ι S Op Ans α}, Run sem c₀ tr c →
      Run sem c₀ (schedule exec is tr c).1 (schedule exec is tr c).2 := by
  induction is with
  | nil => intro tr c h; exact h
  | cons i is ih =>
    intro tr c h
    rw [schedule]
    rcases hk : c.procs i with a | ⟨o, k⟩
    · exact ih h
    · rcases hx : exec o c.state with _ | ⟨r, s'⟩
      · simpa only [hx] using ih h
      · simpa only [hx] using ih (h.snoc hk (hexec o c.state r s' hx))

end E2Mail.Lib
