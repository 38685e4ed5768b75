import E2Mail.Backend.AccountRouting
import E2Mail.Backend.RowFields

/-!
# Edits of one account from several sessions

`UpdateAccount` and `ChangePassword` read the row of an account and later write
all its columns, those that they do not mean to change as they have read them.
What another request has changed in between is lost.

* `Changes` — the fields that a request has changed, and `NoLostUpdate`: what
  exactly one acknowledged request has changed is there in the end;
* `Undisturbed` — a write carries over what is still stored, a password change
  that is taken back was alone with the row, and a switch of the default account
  has both its statements;
* `turn_of_last` — then the requests have the row one after the other;
* `noLostUpdate_of_undisturbed` — and no update is lost.
-/

namespace E2Mail.Backend

open Lib

/-! ## The statement -/

section Statements

variable {ι : Type} [DecidableEq ι] (P : Params) (key id : String)
  (tr : List (Entry ι World Op Ans)) (c : Conf ι World Op Ans Resp)

/-- The request was answered by a success. -/
def Acked (i : ι) : Prop := ∃ data, c.procs i = .ret (.success data)

/-- The request has read the row and then written another value into the field. -/
def Edits (i : ι) (f : AccountField) (v : FieldValue) : Prop :=
  ∃ pre x post acc dek saved b, tr = pre ++ x :: post ∧ x.who = i ∧
    x.event = ⟨.updateAccount acc dek, .ok saved⟩ ∧ onRow P key id x.event = true ∧
    (∃ u ∈ proj i pre, ReadAccount b u) ∧ b.id = id ∧ b.userEmail = acc.userEmail ∧
    f.get b ≠ f.get acc ∧ v = f.get acc

/-- The request has made the account the default one, or another one instead of it. -/
def Switches (i : ι) (f : AccountField) (v : FieldValue) : Prop :=
  ∃ x ∈ tr, ∃ y ∈ tr, x.who = i ∧ y.who = i ∧ ∃ owner target old,
    x.event = ⟨.clearDefaults owner, .ok ()⟩ ∧ y.event = ⟨.markDefault owner target, .ok true⟩ ∧
    P.ownerID owner = key ∧ f = .isDefault ∧ v = .flag (decide (target = id)) ∧
    x.pre.field key id .isDefault = some old ∧ old ≠ v

/-- The request has changed the field, and this is the value it has given to it. -/
def Changes (i : ι) (f : AccountField) (v : FieldValue) : Prop :=
  Edits P key id tr i f v ∨ Switches P key id tr i f v

/-- What exactly one acknowledged request has changed has in the end the value that it was given. -/
def NoLostUpdate : Prop :=
  ∀ i f v, Acked c i → Changes P key id tr i f v →
    (∀ j u, j ≠ i → Acked c j → ¬Changes P key id tr j f u) → c.state.field key id f = some v

/-- The requests do not get in each other's way. -/
structure Undisturbed : Prop where
  /-- what a write carries over of what its request has read, is what is still stored -/
  carried : ∀ pre x post acc dek saved b f, tr = pre ++ x :: post →
    x.event = ⟨.updateAccount acc dek, .ok saved⟩ → onRow P key id x.event = true →
    writes (proj x.who pre) = [] → (∃ u ∈ proj x.who pre, ReadAccount b u) → b.id = id →
    b.userEmail = acc.userEmail → f.get b = f.get acc → x.pre.field key id f = some (f.get b)
  /-- no other request writes the row between a request's look at it and its writing it back -/
  alone : ∀ a r m y d acc dek, tr = a ++ r :: (m ++ y :: d) → r.who = y.who →
    ReadAccount acc r.event → y.op = .updateAccount acc dek → P.ownerID acc.userEmail = key →
    acc.id = id → writes (proj y.who (a ++ r :: m)) ≠ [] →
    ∀ z ∈ m, onRow P key id z.event = true → z.who = y.who
  /-- writing it back does not fail -/
  restored : ∀ pre y post acc dek err, tr = pre ++ y :: post →
    y.event = ⟨.updateAccount acc dek, .error err⟩ → P.ownerID acc.userEmail = key → acc.id = id →
    writes (proj y.who pre) = []
  /-- a switch that has cleared the flags sets one -/
  marked : ∀ y ∈ tr, ∀ owner target, y.op = .markDefault owner target → P.ownerID owner = key →
    y.event = ⟨.markDefault owner target, .ok true⟩

end Statements

/-! ## The lock -/

section Lock

variable {ι : Type} [DecidableEq ι] {P : Params} {reqs : ι → Request} {w : World}
  {tr : List (Entry ι World Op Ans)} {c : Conf ι World Op Ans Resp}

/-- While a default account is being switched the lock is held, for one switch at a time. -/
theorem lock_run (h : Run (sem P) (start P reqs w) tr c) :
    (∀ i owner, Switching tr i owner → c.state.mu = true) ∧
      ∀ i j owner owner', Switching tr i owner → Switching tr j owner' → i = j := by
  refine Run.invariant (I := fun tr s => (∀ i owner, Switching tr i owner → s.mu = true) ∧
    ∀ i j owner owner', Switching tr i owner → Switching tr j owner' → i = j) ?_ ?_ h
  · exact ⟨fun i owner hs => (outside_nil owner hs).elim,
      fun i _ owner _ hs => (outside_nil owner hs).elim⟩
  rintro tr c e hrun - ⟨k, hk⟩ hsem ⟨hlock, hone⟩
  have hrule : AccountRule (reqs e.who) (proj e.who tr) e.op :=
    hrun.along (P := fun i => AccountRule (reqs i)) (Q := fun _ _ _ => True)
      (fun i => accountRule_prog P (reqs i)) hk
  -- a call that takes the lock finds no switch under way
  have hfree (ho : takesLock e.op = true) (i : ι) (owner : String) : ¬Switching tr i owner := by
    intro hs
    have hmu := hsem.1 ho
    rw [hlock i owner hs] at hmu
    cases hmu
  by_cases hclear : ∃ owner, e.op = .clearDefaults owner
  · obtain ⟨owner, hop⟩ := hclear
    have hnone := hfree (by rw [hop]; rfl)
    rcases clearDefaults_cases hsem hop with ⟨-, hpost⟩ | ⟨hno, -⟩
    · refine ⟨fun i owner' _ => by rw [hpost]; rfl, fun i j owner' owner'' hi hj => ?_⟩
      rw [switching_snoc] at hi hj
      split at hi
      · split at hj
        · exact ‹e.who = i›.symm.trans ‹e.who = j›
        · exact absurd hj (hnone j owner'')
      · exact absurd hi (hnone i owner')
    · have hstill (i : ι) (owner' : String) : ¬Switching (tr ++ [e]) i owner' := by
        rw [switching_snoc]
        split
        · exact hno owner'
        · exact hnone i owner'
      exact ⟨fun i owner' hs => absurd hs (hstill i owner'),
        fun i _ owner' _ hs => absurd hs (hstill i owner')⟩
  by_cases hmark : ∃ owner target, e.op = .markDefault owner target
  · obtain ⟨owner, target, hop⟩ := hmark
    have hself : Switching tr e.who owner := (hrule.mark owner target hop).1
    have hover (i : ι) (owner' : String) : ¬Switching (tr ++ [e]) i owner' := by
      rw [switching_snoc]
      split
      · intro hev
        have hop' : e.op = .clearDefaults owner' := congrArg Sigma.fst hev
        exact hclear ⟨owner', hop'⟩
      · rename_i hne
        exact fun hs => hne (hone e.who i owner owner' hself hs)
    exact ⟨fun i owner' hs => absurd hs (hover i owner'),
      fun i _ owner' _ hs => absurd hs (hover i owner')⟩
  have hswitch := switching_other hrule
    (fun owner hev => hclear ⟨owner, congrArg Sigma.fst hev⟩) fun owner target hop =>
      hmark ⟨owner, target, hop⟩
  refine ⟨fun i owner hs => ?_, fun i j owner owner' hi hj => ?_⟩
  · have hbefore := (hswitch i owner).mp hs
    have hnot : e.op.writesAccounts = false := by
      by_contra hwrites
      have htakes : takesLock e.op = true := by
        cases hop : e.op with
        | clearDefaults owner => exact absurd ⟨owner, hop⟩ hclear
        | markDefault owner target => exact absurd ⟨owner, target, hop⟩ hmark
        | createAccount | updateAccount | deleteAccount => rfl
        | _ => rw [hop] at hwrites; exact absurd rfl hwrites
      exact hfree htakes i owner hbefore
    rw [(accounts_of_not_writes hsem hnot).2]
    exact hlock i owner hbefore
  · exact hone i j owner owner' ((hswitch i owner).mp hi) ((hswitch j owner').mp hj)

end Lock

/-! ## Runs of requests on accounts -/

section Runs

variable {ι : Type} [DecidableEq ι] {P : Params} {key id : String} {f : AccountField}
  {reqs : ι → Request} {w : World} {tr p rest : List (Entry ι World Op Ans)}
  {c : Conf ι World Op Ans Resp} {y : Entry ι World Op Ans}

/-- Every call of the run keeps to the rule. -/
theorem editRule_cut (hreqs : ∀ i, (reqs i).onAccounts = true)
    (hrun : Run (sem P) (start P reqs w) tr c) (htr : tr = p ++ y :: rest) :
    EditRule (proj y.who p) y.op := by
  obtain ⟨c₁, hrun₁, -, ⟨k, hk⟩, -⟩ := hrun.cut htr
  exact hrun₁.along (P := fun _ => EditRule) (Q := fun _ => Ended)
    (fun i => editRule_prog P (hreqs i)) hk

/-- Every request that has answered has written what `Ended` says. -/
theorem ended_run (hreqs : ∀ i, (reqs i).onAccounts = true)
    (hrun : Run (sem P) (start P reqs w) tr c) {i : ι} {resp : Resp} (hret : c.procs i = .ret resp) :
    Ended (proj i tr) resp :=
  hrun.along_ret (P := fun _ => EditRule) (Q := fun _ => Ended)
    (fun i => editRule_prog P (hreqs i)) hret

/-- Every call of the run changes the field as `effect` says. -/
theorem field_step_run (hreqs : ∀ i, (reqs i).onAccounts = true)
    (hrun : Run (sem P) (start P reqs w) tr c) (hy : y ∈ tr) :
    y.post.field key id f = (y.pre.field key id f).map (effect P key id y.event f) := by
  obtain ⟨p, rest, htr⟩ := List.append_of_mem hy
  have hrule := editRule_cut hreqs hrun htr
  exact field_step (hrun.sem_of_mem hy) hrule.insert hrule.delete

theorem field_of_not_onRow (hreqs : ∀ i, (reqs i).onAccounts = true)
    (hrun : Run (sem P) (start P reqs w) tr c) (hy : y ∈ tr)
    (hnot : onRow P key id y.event = false) : y.post.field key id f = y.pre.field key id f := by
  rw [field_step_run hreqs hrun hy, funext (effect_of_not_onRow hnot)]
  exact Option.map_id'

/-- No call adds the row or deletes it. -/
theorem isSome_run (hreqs : ∀ i, (reqs i).onAccounts = true)
    (hrun : Run (sem P) (start P reqs w) tr c) (hy : y ∈ tr) :
    (y.pre.field key id f).isSome = (w.field key id f).isSome := by
  obtain ⟨p, rest, htr⟩ := List.append_of_mem hy
  obtain ⟨c₁, hrun₁, hstate, -, -⟩ := hrun.cut htr
  rw [← hstate]
  refine hrun₁.unchanged (f := fun s => (s.field key id f).isSome) fun e he => ?_
  rw [field_step_run hreqs hrun₁ he, Option.isSome_map]

/-! ## The last write of a request -/

theorem mem_writes {h : List (Event Op Ans)} {v : Event Op Ans} :
    v ∈ writes h ↔ v ∈ h ∧ wrote v = true := List.mem_filter

theorem writes_proj (htr : tr = p ++ y :: rest) (hy : wrote y.event = true) :
    writes (proj y.who tr) =
      writes (proj y.who p) ++ y.event :: writes (proj y.who rest) := by
  have hcons : y :: rest = [y] ++ rest := rfl
  rw [htr, hcons, ← List.append_assoc, proj_append, proj_snoc_self, List.append_assoc, writes_append]
  exact congrArg _ (List.filter_cons_of_pos hy)

omit [DecidableEq ι] in
theorem acked_iff {i : ι} {resp : Resp} (hret : c.procs i = .ret resp) :
    Acked c i ↔ resp.isSuccess = true := by
  constructor
  · rintro ⟨data, hdata⟩
    rw [hret] at hdata
    obtain rfl := Prog.ret.inj hdata
    rfl
  · intro hsuccess
    cases resp with
    | success data => exact ⟨data, hret⟩
    | error code msg => cases hsuccess

/-- How a request came to its last write `y` of the row, when `p` had happened. -/
inductive LastWrite (tr : List (Entry ι World Op Ans)) (c : Conf ι World Op Ans Resp)
    (p : List (Entry ι World Op Ans)) (y : Entry ι World Op Ans) : Prop where
  | edit (acc : Account) (dek : Nat) (saved : Account)
      (hev : y.event = ⟨.updateAccount acc dek, .ok saved⟩)
      (hfirst : FirstWrite (proj y.who p) acc) (hw : writes (proj y.who tr) = [y.event])
      (hack : Acked c y.who)
  | undo (a m : List (Entry ι World Op Ans)) (r : Entry ι World Op Ans) (acc : Account) (dek : Nat)
      (saved : Account) (hp : p = a ++ r :: m) (hwho : r.who = y.who)
      (hread : ReadAccount acc r.event) (hev : y.event = ⟨.updateAccount acc dek, .ok saved⟩)
      (ha : writes (proj y.who a) = []) (hback : writes (proj y.who p) ≠ [])
      (hack : ¬Acked c y.who)
  | switch (a m : List (Entry ι World Op Ans)) (x : Entry ι World Op Ans) (owner target : String)
      (hp : p = a ++ x :: m) (hwho : x.who = y.who)
      (hclear : x.event = ⟨.clearDefaults owner, .ok ()⟩)
      (hmark : y.event = ⟨.markDefault owner target, .ok true⟩) (ha : proj y.who a = [])
      (hm : proj y.who m = []) (hw : writes (proj y.who tr) = [x.event, y.event])
      (hack : Acked c y.who)

/-- The write of an update or a password change. -/
theorem lastWrite_of_first (hreqs : ∀ i, (reqs i).onAccounts = true)
    (hrun : Run (sem P) (start P reqs w) tr c) (hund : Undisturbed P key id tr)
    (htr : tr = p ++ y :: rest) (hrest : ∀ z ∈ rest, z.who = y.who → onRow P key id z.event = false)
    {resp : Resp} (hret : c.procs y.who = .ret resp) {acc saved : Account} {dek : Nat}
    (hev : y.event = ⟨.updateAccount acc dek, .ok saved⟩) (hkey : P.ownerID acc.userEmail = key)
    (hid : acc.id = id) (hfirst : FirstWrite (proj y.who p) acc) : LastWrite tr c p y := by
  have hws := writes_proj htr (by rw [hev]; rfl)
  rw [hfirst.1, List.nil_append] at hws
  cases ended_run hreqs hrun hret with
  | nothing hw =>
    rw [hws] at hw
    cases hw
  | edited acc' dek' saved' hw hresp =>
    rw [hws] at hw
    refine .edit acc dek saved hev hfirst ?_ ((acked_iff hret).mpr hresp)
    rw [hws, (List.cons.inj hw).2]
  | undone a dek₁ saved₁ acc' dek₂ saved₂ hw hid' howner hresp =>
    -- the write that takes this one back is later, and of the same row
    rw [hws, hev] at hw
    obtain ⟨hfst, hsnd⟩ := List.cons.inj hw
    cases hfst
    have hlater : (⟨.updateAccount acc' dek₂, .ok saved₂⟩ : Event Op Ans) ∈
        writes (proj y.who rest) := by
      rw [hsnd]
      exact List.mem_singleton_self _
    obtain ⟨z, hz, hwho, hzev⟩ := mem_proj.mp (mem_writes.mp hlater).1
    have hno := hrest z hz hwho
    rw [hzev, onRow, decide_eq_false_iff_not] at hno
    exact absurd ⟨howner ▸ hkey, hid' ▸ hid⟩ hno
  | stuck h₁ h₂ acc' dek' err hh hback hw hresp =>
    obtain ⟨a, dek₁, saved₁, hwh, hid', howner⟩ := hback.writes_eq
    rw [hws, hwh, hev] at hw
    cases (List.cons.inj hw).1
    obtain ⟨t₁, t₂, rfl, ht₁, ht₂⟩ := proj_eq_append hh
    obtain ⟨b, e, d, rfl, hb, hwho, heev, -⟩ := proj_eq_cons ht₂
    have hnone := hund.restored (t₁ ++ b) e d acc' dek' err (by simp) heev (howner ▸ hkey)
      (hid' ▸ hid)
    rw [hwho, proj_append, ht₁, hb, List.append_nil, hwh] at hnone
    cases hnone
  | switched owner target hw hresp =>
    rw [hws, hev] at hw
    cases (List.cons.inj hw).1
  | unmarked owner target r hr hw hresp =>
    rw [hws, hev] at hw
    cases (List.cons.inj hw).1

/-- The write that takes a password change back. -/
theorem lastWrite_of_back (hreqs : ∀ i, (reqs i).onAccounts = true)
    (hrun : Run (sem P) (start P reqs w) tr c) (htr : tr = p ++ y :: rest)
    {resp : Resp} (hret : c.procs y.who = .ret resp) {acc saved : Account} {dek : Nat}
    (hev : y.event = ⟨.updateAccount acc dek, .ok saved⟩) (hback : WriteBack (proj y.who p) acc) :
    LastWrite tr c p y := by
  have hws := writes_proj htr (by rw [hev]; rfl)
  obtain ⟨a, dek₁, saved₁, hwp, -, -⟩ := hback.writes_eq
  have hnot : ¬Acked c y.who := by
    rw [hwp] at hws
    rw [acked_iff hret, Bool.not_eq_true]
    cases ended_run hreqs hrun hret with
    | nothing hw =>
      rw [hws] at hw
      cases hw
    | edited _ _ _ hw _ =>
      rw [hws] at hw
      cases (List.cons.inj hw).2
    | undone _ _ _ _ _ _ _ _ _ hresp => exact hresp
    | stuck _ _ _ _ _ _ _ _ hresp => exact hresp
    | switched _ _ hw _ =>
      rw [hws] at hw
      cases (List.cons.inj hw).1
    | unmarked _ _ _ _ _ hresp => exact hresp
  obtain ⟨h₁, h₂, a', dek₂, saved₂, hh, hw₁, -, ⟨v, hv, hread⟩, -, -⟩ := hback
  obtain ⟨u₁, u₂, rfl⟩ := List.append_of_mem hv
  rw [List.append_assoc, List.cons_append] at hh
  obtain ⟨t₁, t₂, rfl, ht₁, ht₂⟩ := proj_eq_append hh
  obtain ⟨b, r, m, rfl, hb, hwho, hrev, -⟩ := proj_eq_cons ht₂
  refine .undo (t₁ ++ b) m r acc dek saved (by simp) hwho (hrev ▸ hread) hev ?_ ?_ hnot
  · rw [writes_append] at hw₁
    rw [proj_append, ht₁, hb, List.append_nil]
    exact (List.append_eq_nil_iff.mp hw₁).1
  · rw [hwp]
    exact List.cons_ne_nil _ _

/-- A request that clears the flags makes its second statement later. -/
theorem mark_of_clear (hreqs : ∀ i, (reqs i).onAccounts = true)
    (hrun : Run (sem P) (start P reqs w) tr c) (htr : tr = p ++ y :: rest)
    {resp : Resp} (hret : c.procs y.who = .ret resp) {owner : String}
    (hev : y.event = ⟨.clearDefaults owner, .ok ()⟩) :
    ∃ z ∈ rest, z.who = y.who ∧ ∃ target r, z.event = ⟨.markDefault owner target, r⟩ := by
  have hws := writes_proj htr (by rw [hev]; rfl)
  rw [hev] at hws
  have hmem : (⟨.clearDefaults owner, .ok ()⟩ : Event Op Ans) ∈ writes (proj y.who tr) := by
    rw [hws]
    simp
  -- only a switch clears the flags, and it does so first
  have hlater (owner' target : String) (r : Res Bool) (hw : writes (proj y.who tr) =
      [⟨.clearDefaults owner', .ok ()⟩, ⟨.markDefault owner' target, r⟩]) :
      ∃ z ∈ rest, z.who = y.who ∧ ∃ target r, z.event = ⟨.markDefault owner target, r⟩ := by
    rw [hw] at hws
    rcases hnil : writes (proj y.who p) with _ | ⟨v, h⟩
    · rw [hnil] at hws
      obtain ⟨hfst, hsnd⟩ := List.cons.inj hws
      cases hfst
      have hmark : (⟨.markDefault owner target, r⟩ : Event Op Ans) ∈ writes (proj y.who rest) := by
        rw [← hsnd]
        exact List.mem_singleton_self _
      obtain ⟨z, hz, hwho, hzev⟩ := mem_proj.mp (mem_writes.mp hmark).1
      exact ⟨z, hz, hwho, target, r, hzev⟩
    · rw [hnil] at hws
      have hsnd := (List.cons.inj hws).2
      rcases h with _ | ⟨u, h⟩
      · cases (List.cons.inj hsnd).1
      · simp at hsnd
  cases ended_run hreqs hrun hret with
  | nothing hw => simp [hw] at hmem
  | edited _ _ _ hw _ => simp [hw] at hmem
  | undone _ _ _ _ _ _ hw _ _ _ => simp [hw] at hmem
  | stuck h₁ _ _ _ _ _ hback hw _ =>
    obtain ⟨_, _, _, hwh, -⟩ := hback.writes_eq
    simp [hw, hwh] at hmem
  | switched owner' target hw _ => exact hlater owner' target _ hw
  | unmarked owner' target r _ hw _ => exact hlater owner' target r hw

/-- The second statement of a switch. -/
theorem lastWrite_of_mark (hreqs : ∀ i, (reqs i).onAccounts = true)
    (hrun : Run (sem P) (start P reqs w) tr c) (htr : tr = p ++ y :: rest)
    {resp : Resp} (hret : c.procs y.who = .ret resp) {owner target : String}
    (hev : y.event = ⟨.markDefault owner target, .ok true⟩) : LastWrite tr c p y := by
  have hop : y.op = .markDefault owner target := congrArg Sigma.fst hev
  have hp := (editRule_cut hreqs hrun htr).mark owner target hop
  have hws := writes_proj htr (by rw [hev]; rfl)
  obtain ⟨a, x, m, rfl, ha, hwho, hclear, hm⟩ := proj_eq_cons hp
  rw [hp] at hws
  have hlist : writes (proj y.who tr) =
      ⟨.clearDefaults owner, .ok ()⟩ :: y.event :: writes (proj y.who rest) := hws
  have hsame (owner' target' : String) (r : Res Bool) (hw : writes (proj y.who tr) =
      [⟨.clearDefaults owner', .ok ()⟩, ⟨.markDefault owner' target', r⟩]) :
      writes (proj y.who tr) = [x.event, y.event] ∧ r = .ok true := by
    have hlist' := hlist
    rw [hw, hev] at hlist'
    obtain ⟨-, hsnd⟩ := List.cons.inj hlist'
    obtain ⟨hmark, hnil⟩ := List.cons.inj hsnd
    cases hmark
    rw [hlist, ← hnil, hclear]
    exact ⟨rfl, rfl⟩
  cases ended_run hreqs hrun hret with
  | nothing hw =>
    rw [hlist] at hw
    cases hw
  | edited _ _ _ hw _ =>
    rw [hlist] at hw
    cases (List.cons.inj hw).1
  | undone _ _ _ _ _ _ hw _ _ _ =>
    rw [hlist] at hw
    cases (List.cons.inj hw).1
  | stuck h₁ _ _ _ _ _ hback hw _ =>
    obtain ⟨_, _, _, hwh, -⟩ := hback.writes_eq
    rw [hlist, hwh] at hw
    cases (List.cons.inj hw).1
  | switched owner' target' hw hresp =>
    exact .switch a m x owner target rfl hwho hclear hev ha hm (hsame owner' target' _ hw).1
      ((acked_iff hret).mpr hresp)
  | unmarked owner' target' r hr hw hresp => exact absurd (hsame owner' target' r hw).2 hr

/-- **The last write** of a request on the row. -/
theorem lastWrite_cases (hreqs : ∀ i, (reqs i).onAccounts = true)
    (hrun : Run (sem P) (start P reqs w) tr c) (hund : Undisturbed P key id tr)
    (htr : tr = p ++ y :: rest) (hy : onRow P key id y.event = true)
    (hrest : ∀ z ∈ rest, z.who = y.who → onRow P key id z.event = false)
    {resp : Resp} (hret : c.procs y.who = .ret resp) : LastWrite tr c p y := by
  obtain ⟨acc, dek, saved, hev, hkey, hid⟩ | ⟨owner, hev, hkey⟩ | ⟨owner, target, r, hev, hkey⟩ :=
    onRow_cases hy
  · have hop : y.op = .updateAccount acc dek := congrArg Sigma.fst hev
    rcases (editRule_cut hreqs hrun htr).update acc dek hop with hfirst | hback
    · exact lastWrite_of_first hreqs hrun hund htr hrest hret hev hkey hid hfirst
    · exact lastWrite_of_back hreqs hrun htr hret hev hback
  · obtain ⟨z, hz, hwho, target, r, hzev⟩ := mark_of_clear hreqs hrun htr hret hev
    have hno := hrest z hz hwho
    rw [hzev, onRow, decide_eq_false_iff_not] at hno
    exact absurd hkey hno
  · have hop : y.op = .markDefault owner target := congrArg Sigma.fst hev
    have hok := hund.marked y (by simp [htr]) owner target hop hkey
    exact lastWrite_of_mark hreqs hrun htr hret hok

/-! ## Turns -/

/-- The request alone has written the row in `s`, and not before, in `a`. -/
structure Turn (P : Params) (key id : String) (j : ι) (a s : List (Entry ι World Op Ans)) :
    Prop where
  only : ∀ z ∈ s, onRow P key id z.event = true → z.who = j
  all : ∀ z ∈ a, z.who = j → onRow P key id z.event = false

/-- No request has written the row both in `p` and in `q`. -/
def Apart (P : Params) (key id : String) (p q : List (Entry ι World Op Ans)) : Prop :=
  ∀ x ∈ p, onRow P key id x.event = true → ∀ z ∈ q, z.who = x.who → onRow P key id z.event = false

omit [DecidableEq ι] in
theorem Turn.apart {j : ι} {a s q : List (Entry ι World Op Ans)} (hturn : Turn P key id j a s)
    (h : Apart P key id (a ++ s) q) : Apart P key id a (s ++ q) := by
  intro x hx hon z hz hwho
  rcases List.mem_append.mp hz with hz | hz
  · by_contra hne
    rw [Bool.not_eq_false] at hne
    rw [hturn.all x hx (hwho.symm.trans (hturn.only z hz hne))] at hon
    cases hon
  · exact h x (List.mem_append_left _ hx) hon z hz hwho

omit [DecidableEq ι] in
/-- Another request that has written the row has done so before the turn. -/
theorem Turn.mem_before {i j : ι} {a s : List (Entry ι World Op Ans)}
    (hturn : Turn P key id j a s) (hij : j ≠ i)
    (h : ∃ z ∈ a ++ s, z.who = i ∧ onRow P key id z.event = true) :
    ∃ z ∈ a, z.who = i ∧ onRow P key id z.event = true := by
  obtain ⟨z, hz, hwho, hon⟩ := h
  rcases List.mem_append.mp hz with hz | hz
  · exact ⟨z, hz, hwho, hon⟩
  · exact absurd ((hturn.only z hz hon).symm.trans hwho) hij

theorem not_onRow_of_writes {j : ι} (h : writes (proj j p) = []) {z : Entry ι World Op Ans}
    (hz : z ∈ p) (hwho : z.who = j) : onRow P key id z.event = false := by
  by_contra hon
  rw [Bool.not_eq_false] at hon
  have hmem := mem_writes.mpr ⟨mem_proj.mpr ⟨z, hz, hwho, rfl⟩, wrote_of_onRow hon⟩
  rw [h] at hmem
  cases hmem

/-- While a default account is being switched nobody else writes the row. -/
theorem not_onRow_between (hreqs : ∀ i, (reqs i).onAccounts = true)
    (hrun : Run (sem P) (start P reqs w) tr c) {a m d : List (Entry ι World Op Ans)}
    {x : Entry ι World Op Ans} (htr : tr = a ++ x :: (m ++ d)) {owner : String}
    (hclear : x.event = ⟨.clearDefaults owner, .ok ()⟩) (hm : proj x.who m = [])
    {z : Entry ι World Op Ans} (hz : z ∈ m) : onRow P key id z.event = false := by
  by_contra hon
  rw [Bool.not_eq_false] at hon
  obtain ⟨m₁, m₂, rfl⟩ := List.append_of_mem hz
  have hcut : tr = ((a ++ [x]) ++ m₁) ++ z :: (m₂ ++ d) := by simp [htr]
  obtain ⟨c₁, hrun₁, hstate, -, hsem⟩ := hrun.cut hcut
  have hm₁ : proj x.who m₁ = [] := by
    rw [proj_append] at hm
    exact (List.append_eq_nil_iff.mp hm).1
  have hswitching : Switching ((a ++ [x]) ++ m₁) x.who owner := by
    rw [Switching, Clearing, proj_append, proj_snoc_self, hm₁, List.append_nil, List.getLast?_concat,
      hclear]
  obtain ⟨hlock, hone⟩ := lock_run hrun₁
  have hmu := hlock _ _ hswitching
  rw [hstate] at hmu
  have hfree (ho : takesLock z.op = true) : False := by
    have hno := hsem.1 ho
    rw [hmu] at hno
    cases hno
  obtain ⟨acc, dek, saved, hev, -⟩ | ⟨owner', hev, -⟩ | ⟨owner', target, r, hev, -⟩ := onRow_cases hon
  · have hop : z.op = .updateAccount acc dek := congrArg Sigma.fst hev
    exact hfree (by rw [hop]; rfl)
  · have hop : z.op = .clearDefaults owner' := congrArg Sigma.fst hev
    exact hfree (by rw [hop]; rfl)
  · have hop : z.op = .markDefault owner' target := congrArg Sigma.fst hev
    have hhist := (editRule_cut hreqs hrun hcut).mark owner' target hop
    have hother : Switching ((a ++ [x]) ++ m₁) z.who owner' := by
      rw [Switching, Clearing, hhist]
      rfl
    have hwho := hone _ _ _ _ hother hswitching
    have hmem : z.event ∈ proj x.who (m₁ ++ z :: m₂) := mem_proj.mpr ⟨z, hz, hwho, rfl⟩
    rw [hm] at hmem
    cases hmem

/-- What a turn of request `j` leaves of the field: the value that `j` has changed it to, if `j` is
acknowledged, or else what was there before the turn. -/
structure Leaves (P : Params) (key id : String) (f : AccountField) (tr : List (Entry ι World Op Ans))
    (c : Conf ι World Op Ans Resp) (j : ι) (before after : Option FieldValue) : Prop where
  changed : ∀ v, Acked c j → Changes P key id tr j f v → after = some v
  kept : (∀ v, Acked c j → ¬Changes P key id tr j f v) → after = before

section Turns

variable {d q : List (Entry ι World Op Ans)}

/-- The call that a request has written with is one of its writes. -/
theorem event_mem_writes {x : Entry ι World Op Ans} (hx : x ∈ tr) (hwho : x.who = y.who)
    (hwrote : wrote x.event = true) : x.event ∈ writes (proj y.who tr) :=
  mem_writes.mpr ⟨mem_proj.mpr ⟨x, hx, hwho, rfl⟩, hwrote⟩

omit [DecidableEq ι] in
theorem effect_of_update {acc saved : Account} {dek : Nat}
    (hev : y.event = ⟨.updateAccount acc dek, .ok saved⟩) (hy : onRow P key id y.event = true)
    (old : FieldValue) : effect P key id y.event f old = f.get acc := by
  rw [hev] at hy ⊢
  simp only [onRow, decide_eq_true_eq] at hy
  simp only [effect, if_pos hy]

/-- What both statements of a switch do. -/
theorem effect_of_switch {owner target : String} (hkey : P.ownerID owner = key)
    (o : Option FieldValue) :
    (o.map (effect P key id ⟨.clearDefaults owner, .ok ()⟩ f)).map
      (effect P key id ⟨.markDefault owner target, .ok true⟩ f) =
        o.map fun old => if f = .isDefault then .flag (decide (target = id)) else old := by
  rw [Option.map_map]
  refine Option.map_congr fun old _ => ?_
  simp only [Function.comp_apply, effect, hkey, true_and]
  by_cases hf : f = .isDefault
  · by_cases hid : target = id <;> simp only [hf, hid, and_self, and_true, if_true, if_false,
      decide_true, decide_false]
  · simp only [hf, and_false, if_false]

theorem field_of_update (hreqs : ∀ i, (reqs i).onAccounts = true)
    (hrun : Run (sem P) (start P reqs w) tr c) (hy : y ∈ tr) {acc saved : Account} {dek : Nat}
    (hev : y.event = ⟨.updateAccount acc dek, .ok saved⟩) (hon : onRow P key id y.event = true)
    (hrow : (w.field key id f).isSome = true) : y.post.field key id f = some (f.get acc) := by
  rw [← isSome_run hreqs hrun hy] at hrow
  obtain ⟨old, hold⟩ := Option.isSome_iff_exists.mp hrow
  rw [field_step_run hreqs hrun hy, hold, Option.map_some, effect_of_update hev hon]

/-- The turn of an update, or of a password change that has succeeded. -/
theorem edit_leaves (hreqs : ∀ i, (reqs i).onAccounts = true)
    (hrun : Run (sem P) (start P reqs w) tr c) (hund : Undisturbed P key id tr)
    (htr : tr = p ++ y :: rest) (hon : onRow P key id y.event = true) {acc saved : Account} {dek : Nat}
    (hev : y.event = ⟨.updateAccount acc dek, .ok saved⟩) (hfirst : FirstWrite (proj y.who p) acc)
    (hw : writes (proj y.who tr) = [y.event]) (hack : Acked c y.who) :
    Leaves P key id f tr c y.who (y.pre.field key id f) (y.post.field key id f) := by
  have hy : y ∈ tr := by simp [htr]
  have hrow := hon
  rw [hev] at hrow
  simp only [onRow, decide_eq_true_eq] at hrow
  obtain ⟨hkey, hid⟩ := hrow
  obtain ⟨hnone, v, hv, b, hread, hbid, howner⟩ := hfirst
  have hsome : (w.field key id f).isSome = true := by
    obtain ⟨r, hr, -, rfl⟩ := mem_proj.mp hv
    have hrtr : r ∈ tr := by
      rw [htr]
      exact List.mem_append_left _ hr
    obtain ⟨hpre, -⟩ := field_of_read (f := f) (hrun.sem_of_mem hrtr) hread (howner ▸ hkey)
      (hbid.trans hid)
    rw [← isSome_run hreqs hrun hrtr, hpre]
    rfl
  have hpost := field_of_update hreqs hrun hy hev hon hsome
  constructor
  · rintro u - (⟨pre, x, post, acc', dek', saved', b', htr', hwho, hxev, -, -, -, -, -, rfl⟩ |
      ⟨x, hx, -, -, hwho, -, owner, -, -, hclear, -⟩)
    · have hxtr : x ∈ tr := by simp [htr']
      have hmem := event_mem_writes hxtr hwho (by rw [hxev]; rfl)
      rw [hw, List.mem_singleton, hxev, hev] at hmem
      cases hmem
      exact hpost
    · have hmem := event_mem_writes hx hwho (by rw [hclear]; rfl)
      rw [hw, List.mem_singleton, hclear, hev] at hmem
      cases hmem
  · intro hno
    have hsame : f.get b = f.get acc := by
      by_contra hne
      exact hno _ hack (.inl ⟨p, y, rest, acc, dek, saved, b, htr, rfl, hev, hon, ⟨v, hv, hread⟩,
        hbid.trans hid, howner, hne, rfl⟩)
    rw [hpost, ← hsame]
    exact (hund.carried p y rest acc dek saved b f htr hev hon hnone ⟨v, hv, hread⟩ (hbid.trans hid)
      howner hsame).symm

/-- The turn of a password change that is taken back. -/
theorem undo_leaves (hreqs : ∀ i, (reqs i).onAccounts = true)
    (hrun : Run (sem P) (start P reqs w) tr c) (hy : y ∈ tr) (hon : onRow P key id y.event = true)
    {r : Entry ι World Op Ans} (hr : r ∈ tr) {acc saved : Account} {dek : Nat}
    (hread : ReadAccount acc r.event) (hev : y.event = ⟨.updateAccount acc dek, .ok saved⟩)
    (hack : ¬Acked c y.who) :
    Leaves P key id f tr c y.who (r.pre.field key id f) (y.post.field key id f) := by
  have hrow := hon
  rw [hev] at hrow
  simp only [onRow, decide_eq_true_eq] at hrow
  obtain ⟨hpre, -⟩ := field_of_read (f := f) (hrun.sem_of_mem hr) hread hrow.1 hrow.2
  refine ⟨fun v hacked => absurd hacked hack, fun _ => ?_⟩
  rw [hpre]
  refine field_of_update hreqs hrun hy hev hon ?_
  rw [← isSome_run hreqs hrun hr, hpre]
  rfl

/-- The turn of a switch. -/
theorem switch_leaves (hreqs : ∀ i, (reqs i).onAccounts = true)
    (hrun : Run (sem P) (start P reqs w) tr c) {a m : List (Entry ι World Op Ans)}
    {x : Entry ι World Op Ans} (htr : tr = (a ++ x :: m) ++ y :: rest) (hwho : x.who = y.who)
    {owner target : String} (hkey : P.ownerID owner = key)
    (hclear : x.event = ⟨.clearDefaults owner, .ok ()⟩)
    (hmark : y.event = ⟨.markDefault owner target, .ok true⟩)
    (hm : ∀ z ∈ m, onRow P key id z.event = false)
    (hw : writes (proj y.who tr) = [x.event, y.event]) (hack : Acked c y.who) :
    Leaves P key id f tr c y.who (x.pre.field key id f) (y.post.field key id f) := by
  have hx : x ∈ tr := by simp [htr]
  have hy : y ∈ tr := by simp [htr]
  have hpost : y.post.field key id f = (x.pre.field key id f).map fun old =>
      if f = .isDefault then .flag (decide (target = id)) else old := by
    obtain ⟨c₂, hrun₂, hstate, -, -⟩ := hrun.cut htr
    have hbetween := hrun₂.last (f := fun s => s.field key id f) rfl fun z hz =>
      field_of_not_onRow hreqs hrun₂ (by simp [hz]) (hm z hz)
    rw [field_step_run hreqs hrun hy, ← hstate, hbetween, field_step_run hreqs hrun hx, hclear, hmark]
    exact effect_of_switch hkey _
  rw [hpost]
  constructor
  · rintro v - (⟨pre, z, post, acc, dek, saved, b, htr', hwho', hzev, -⟩ |
      ⟨x', hx', y', hy', hwhox, hwhoy, owner', target', old, hclear', hmark', -, rfl, rfl, hold, -⟩)
    · have hztr : z ∈ tr := by simp [htr']
      have hmem := event_mem_writes hztr hwho' (by rw [hzev]; rfl)
      rw [hw, hclear, hmark, hzev] at hmem
      simp at hmem
    · have hmem := event_mem_writes hy' hwhoy (by rw [hmark']; rfl)
      have htarget : target' = target := by
        rw [hw, hclear, hmark, hmark'] at hmem
        simp at hmem
        exact hmem.2
      have hsome : (x.pre.field key id .isDefault).isSome = true := by
        rw [isSome_run hreqs hrun hx, ← isSome_run hreqs hrun hx', hold]
        rfl
      obtain ⟨now, hnow⟩ := Option.isSome_iff_exists.mp hsome
      rw [hnow, htarget]
      rfl
  · intro hno
    by_cases hf : f = .isDefault
    · subst hf
      rcases hold : x.pre.field key id .isDefault with _ | old
      · rfl
      · have hsame : old = .flag (decide (target = id)) := by
          by_contra hne
          exact hno _ hack (.inr ⟨x, hx, y, hy, hwho, rfl, owner, target, old, hclear, hmark, hkey,
            rfl, rfl, hold, hne⟩)
        rw [hsame]
        rfl
    · simp only [hf, if_false]
      exact Option.map_id'

/-- **The last turn** that a request has had with the row. -/
theorem last_turn (hreqs : ∀ i, (reqs i).onAccounts = true)
    (hrun : Run (sem P) (start P reqs w) tr c) (hund : Undisturbed P key id tr)
    (hfin : ∀ e ∈ tr, ∃ resp, c.procs e.who = .ret resp) (htr : tr = p ++ q)
    {c₁ : Conf ι World Op Ans Resp} (hrun₁ : Run (sem P) (start P reqs w) p c₁)
    (hapart : Apart P key id p q) (hsome : ∃ e ∈ p, onRow P key id e.event = true) :
    ∃ j a s c₂, p = a ++ s ∧ s ≠ [] ∧ Turn P key id j a s ∧
      Run (sem P) (start P reqs w) a c₂ ∧
      Leaves P key id f tr c j (c₂.state.field key id f) (c₁.state.field key id f) := by
  obtain ⟨p, y, d, rfl, hon, hd⟩ := exists_last hsome
  have hcut : tr = p ++ y :: (d ++ q) := by simp [htr]
  have hy : y ∈ tr := by simp [hcut]
  have hno (z : Entry ι World Op Ans) (hz : z ∈ d) : onRow P key id z.event = false :=
    Bool.eq_false_of_not_eq_true (hd z hz)
  have hafter : c₁.state.field key id f = y.post.field key id f :=
    hrun₁.last (f := fun s => s.field key id f) rfl fun z hz =>
      field_of_not_onRow hreqs hrun (by simp [hcut, hz]) (hno z hz)
  have hrest : ∀ z ∈ d ++ q, z.who = y.who → onRow P key id z.event = false := by
    intro z hz hwho
    rcases List.mem_append.mp hz with hz | hz
    · exact hno z hz
    · exact hapart y (by simp) hon z hz hwho
  obtain ⟨resp, hret⟩ := hfin y hy
  cases lastWrite_cases hreqs hrun hund hcut hon hrest hret with
  | edit acc dek saved hev hfirst hw hack =>
    obtain ⟨c₂, hrun₂, hstate, -, -⟩ := hrun.cut hcut
    refine ⟨y.who, p, y :: d, c₂, rfl, List.cons_ne_nil _ _, ⟨fun z hz hzon => ?_, fun z hz =>
      not_onRow_of_writes hfirst.1 hz⟩, hrun₂, ?_⟩
    · rcases List.mem_cons.mp hz with rfl | hz
      · rfl
      · exact absurd hzon (hd z hz)
    · rw [hafter, hstate]
      exact edit_leaves hreqs hrun hund hcut hon hev hfirst hw hack
  | undo a m r acc dek saved hp hwho hread hev ha hback hack =>
    subst hp
    have hcut' : tr = a ++ r :: (m ++ y :: (d ++ q)) := by simp [hcut]
    have hrow := hon
    rw [hev] at hrow
    simp only [onRow, decide_eq_true_eq] at hrow
    have halone := hund.alone a r m y (d ++ q) acc dek hcut' hwho hread (congrArg Sigma.fst hev)
      hrow.1 hrow.2 hback
    obtain ⟨c₂, hrun₂, hstate, -, -⟩ := hrun.cut hcut'
    refine ⟨y.who, a, r :: (m ++ y :: d), c₂, by simp, List.cons_ne_nil _ _,
      ⟨fun z hz hzon => ?_, fun z hz => not_onRow_of_writes ha hz⟩, hrun₂, ?_⟩
    · rcases List.mem_cons.mp hz with rfl | hz
      · exact hwho
      rcases List.mem_append.mp hz with hz | hz
      · exact halone z hz hzon
      rcases List.mem_cons.mp hz with rfl | hz
      · rfl
      · exact absurd hzon (hd z hz)
    · rw [hafter, hstate]
      exact undo_leaves hreqs hrun hy hon (by simp [hcut']) hread hev hack
  | switch a m x owner target hp hwho hclear hmark ha hm hw hack =>
    subst hp
    have hcut' : tr = a ++ x :: (m ++ y :: (d ++ q)) := by simp [hcut]
    have hkey := hon
    rw [hmark] at hkey
    simp only [onRow, decide_eq_true_eq] at hkey
    have hbetween : ∀ z ∈ m, onRow P key id z.event = false := fun z hz =>
      not_onRow_between hreqs hrun hcut' hclear (hwho ▸ hm) hz
    obtain ⟨c₂, hrun₂, hstate, -, -⟩ := hrun.cut hcut'
    refine ⟨y.who, a, x :: (m ++ y :: d), c₂, by simp, List.cons_ne_nil _ _,
      ⟨fun z hz hzon => ?_, fun z hz => not_onRow_of_writes (by rw [ha]; rfl) hz⟩, hrun₂, ?_⟩
    · rcases List.mem_cons.mp hz with rfl | hz
      · exact hwho
      rcases List.mem_append.mp hz with hz | hz
      · rw [hbetween z hz] at hzon
        cases hzon
      rcases List.mem_cons.mp hz with rfl | hz
      · rfl
      · exact absurd hzon (hd z hz)
    · rw [hafter, hstate]
      exact switch_leaves hreqs hrun hcut hwho hkey hclear hmark hbetween hw hack

/-- What only one acknowledged request has changed is there after every turn from its own on. -/
theorem field_of_apart (hreqs : ∀ i, (reqs i).onAccounts = true)
    (hrun : Run (sem P) (start P reqs w) tr c) (hund : Undisturbed P key id tr)
    (hfin : ∀ e ∈ tr, ∃ resp, c.procs e.who = .ret resp) {i : ι} {v : FieldValue}
    (hack : Acked c i) (hchange : Changes P key id tr i f v)
    (honly : ∀ j u, j ≠ i → Acked c j → ¬Changes P key id tr j f u) (htr : tr = p ++ q)
    {c₁ : Conf ι World Op Ans Resp} (hrun₁ : Run (sem P) (start P reqs w) p c₁)
    (hapart : Apart P key id p q) (hsome : ∃ e ∈ p, e.who = i ∧ onRow P key id e.event = true) :
    c₁.state.field key id f = some v := by
  -- by induction on the length of the run, from its last turn backwards
  generalize hn : p.length = n
  induction n using Nat.strong_induction_on generalizing p q c₁ with
  | _ n ih =>
    obtain ⟨e, he, hwho, hon⟩ := hsome
    obtain ⟨j, a, s, c₂, rfl, hs, hturn, hrun₂, hleaves⟩ :=
      last_turn (f := f) hreqs hrun hund hfin htr hrun₁ hapart ⟨e, he, hon⟩
    by_cases hji : j = i
    · subst hji
      exact hleaves.changed v hack hchange
    · rw [hleaves.kept fun u hackj => honly j u hji hackj]
      have hlt : a.length < n := by
        have hpos := List.length_pos_iff.mpr hs
        rw [← hn, List.length_append]
        omega
      exact ih a.length hlt (by simp [htr]) hrun₂ (hturn.apart hapart)
        (hturn.mem_before hji ⟨e, he, hwho, hon⟩) rfl

end Turns

end Runs

/-- A request that has changed a field has written the row. -/
theorem onRow_of_changes {ι : Type} [DecidableEq ι] {P : Params} {key id : String}
    {tr : List (Entry ι World Op Ans)} {i : ι} {f : AccountField} {v : FieldValue}
    (h : Changes P key id tr i f v) : ∃ e ∈ tr, e.who = i ∧ onRow P key id e.event = true := by
  obtain ⟨pre, x, post, acc, dek, saved, b, rfl, hwho, -, hon, -⟩ |
    ⟨x, hx, -, -, hwho, -, owner, target, old, hclear, -, hkey, -⟩ := h
  · exact ⟨x, by simp, hwho, hon⟩
  · refine ⟨x, hx, hwho, ?_⟩
    rw [hclear]
    simp only [onRow, hkey, decide_true]

/-- **No update is lost** in a run of undisturbed requests: however the updates, password changes
and switches of the default account interleave, a field that exactly one acknowledged request has
changed has in the end the value that it was given. -/
theorem noLostUpdate_of_undisturbed {ι : Type} [DecidableEq ι] {P : Params} {key id : String}
    {reqs : ι → Request} {w : World} {tr : List (Entry ι World Op Ans)}
    {c : Conf ι World Op Ans Resp} (hreqs : ∀ i, (reqs i).onAccounts = true)
    (hrun : Run (sem P) (start P reqs w) tr c)
    (hfin : ∀ e ∈ tr, ∃ resp, c.procs e.who = .ret resp) (hund : Undisturbed P key id tr) :
    NoLostUpdate P key id tr c := by
  intro i f v hack hchange honly
  refine field_of_apart hreqs hrun hund hfin hack hchange honly (List.append_nil tr).symm hrun ?_
    (onRow_of_changes hchange)
  intro x _ _ z hz
  cases hz

/-! ## Two runs -/

/-- The accounts that a call has read. -/
def accountsRead (v : Event Op Ans) : List Account :=
  match v with
  | ⟨.listAccounts _ _, .ok accounts⟩ => accounts
  | ⟨.getAccount _ _ _, .ok (some a)⟩ => [a]
  | _ => []

/-- The account that a call has written. -/
def accountWritten (v : Event Op Ans) : Option Account :=
  match v with
  | ⟨.updateAccount acc _, .ok _⟩ => some acc
  | _ => none

theorem mem_accountsRead {b : Account} {v : Event Op Ans} :
    b ∈ accountsRead v ↔ ReadAccount b v := by
  constructor
  · obtain ⟨o, r⟩ := v
    intro h
    cases o with
    | listAccounts owner dek =>
      rcases r with err | accounts
      · cases h
      · exact .inl ⟨owner, dek, accounts, rfl, h⟩
    | getAccount owner id dek =>
      rcases r with err | _ | a
      · cases h
      · cases h
      · obtain rfl := List.mem_singleton.mp h
        exact .inr ⟨owner, id, dek, rfl⟩
    | _ => cases h
  · rintro (⟨owner, dek, accounts, rfl, hb⟩ | ⟨owner, id, dek, rfl⟩)
    · exact hb
    · exact List.mem_singleton_self b

theorem accountWritten_eq_some {acc : Account} {v : Event Op Ans} (h : accountWritten v = some acc) :
    ∃ dek saved, v = ⟨.updateAccount acc dek, .ok saved⟩ := by
  obtain ⟨o, r⟩ := v
  cases o with
  | updateAccount a dek =>
    rcases r with err | saved
    · cases h
    · obtain rfl := Option.some.inj h
      exact ⟨dek, saved, rfl⟩
  | _ => cases h

/-- What is checked at every place of a list holds at every cut. -/
theorem forall_cuts {β : Type} {l : List β} {Q : List β → β → Prop}
    (h : ∀ n : Fin l.length, Q (l.take n) (l.get n)) :
    ∀ pre x post, l = pre ++ x :: post → Q pre x := by
  rintro pre x post rfl
  have hcut := h ⟨pre.length, by simp⟩
  simpa using hcut

/-- An edit of the display name. -/
def labelEdit : AccountRequest := { label := "Home", imapUseTLS := true, smtpUseTLS := true }

/-- An edit of the password. -/
def passwordEdit : AccountRequest :=
  { email := "ann", imapUseTLS := true, smtpUseTLS := true, password := "new-password" }

/-- Her other session. -/
def otherContext : AuthContext := ⟨"t", "ann", 1⟩

/-- In one session she edits `u`, in the other one she makes `v` the default account. -/
def editAndSwitch (second : Bool) : Request :=
  if second then .setDefaultAccount (some otherContext) "v"
  else .updateAccount (some annsContext) "u" (.ok labelEdit)

/-- The edit reads the row after both statements of the switch. -/
def afterSwitch : List (Entry Bool World Op Ans) × Conf Bool World Op Ans Resp :=
  runFaulty .sample (fun _ => false)
    ([true, true, false, true, false, true] ++ List.replicate 6 false) editAndSwitch annsSessions

/-- A call at its place in the run does not disturb. -/
def undisturbedAt (pre : List (Entry Bool World Op Ans)) (x : Entry Bool World Op Ans) : Bool :=
  match x.event with
  | ⟨.updateAccount _ _, _⟩ =>
    (writes (proj x.who pre)).isEmpty &&
      ((proj x.who pre).flatMap accountsRead).all fun b => b.id ≠ "u" ||
        (x.pre.accountRow "ann" "u").map AccountRow.acc == some b
  | ⟨.markDefault _ _, .ok b⟩ => b
  | ⟨.markDefault _ _, .error _⟩ => false
  | _ => true

theorem undisturbed_afterSwitch : Undisturbed .sample "ann" "u" afterSwitch.1 := by
  have hall : ∀ pre x post, afterSwitch.1 = pre ++ x :: post → undisturbedAt pre x = true :=
    forall_cuts (by decide)
  -- no request writes a row twice
  have honce : ∀ pre x post acc dek, afterSwitch.1 = pre ++ x :: post →
      x.op = .updateAccount acc dek → writes (proj x.who pre) = [] := by
    rintro pre ⟨who, op, ans, before, after⟩ post acc dek htr rfl
    have hcheck := hall _ _ _ htr
    exact List.isEmpty_iff.mp (Bool.and_eq_true_iff.mp hcheck).1
  refine ⟨?_, ?_, ?_, ?_⟩
  · rintro pre ⟨who, op, ans, before, after⟩ post acc dek saved b f htr hev - - ⟨u, hu, hread⟩ hid - -
    cases hev
    have hcheck := List.all_eq_true.mp (Bool.and_eq_true_iff.mp (hall _ _ _ htr)).2 b
      (List.mem_flatMap.mpr ⟨u, hu, mem_accountsRead.mpr hread⟩)
    have hrow : (before.accountRow "ann" "u").map AccountRow.acc = some b := by
      simpa [hid] using hcheck
    obtain ⟨r, hr, rfl⟩ := Option.map_eq_some_iff.mp hrow
    rw [World.field, hr]
    rfl
  · intro a r m y d acc dek htr _ _ hop _ _ hne
    have hcut : afterSwitch.1 = (a ++ r :: m) ++ y :: d := by simp [htr]
    exact absurd (honce _ y d acc dek hcut hop) hne
  · intro pre y post acc dek err htr hev _ _
    exact honce pre y post acc dek htr (congrArg Sigma.fst hev)
  · rintro ⟨who, op, ans, before, after⟩ hy owner target rfl -
    obtain ⟨pre, post, htr⟩ := List.append_of_mem hy
    have hcheck := hall _ _ _ htr
    rcases ans with err | b
    · cases hcheck
    · obtain rfl : b = true := hcheck
      rfl

theorem onAccounts_editAndSwitch (i : Bool) : (editAndSwitch i).onAccounts = true := by
  cases i <;> rfl

theorem noLostUpdate_afterSwitch : (∀ i, (editAndSwitch i).onAccounts = true) ∧
    Run (sem .sample) (start .sample editAndSwitch annsSessions) afterSwitch.1 afterSwitch.2 ∧
    (∀ e ∈ afterSwitch.1, ∃ resp, afterSwitch.2.procs e.who = .ret resp) ∧
    Undisturbed .sample "ann" "u" afterSwitch.1 ∧
    NoLostUpdate .sample "ann" "u" afterSwitch.1 afterSwitch.2 := by
  have hrun : Run (sem .sample) (start .sample editAndSwitch annsSessions) afterSwitch.1
      afterSwitch.2 := run_runFaulty _ _ _ _ _
  have hdone : ∀ i, (afterSwitch.2.procs i).isRet = true := by decide +kernel
  have hfin (e : Entry Bool World Op Ans) (_ : e ∈ afterSwitch.1) :
      ∃ resp, afterSwitch.2.procs e.who = .ret resp := Prog.isRet_iff.mp (hdone e.who)
  exact ⟨onAccounts_editAndSwitch, hrun, hfin, undisturbed_afterSwitch,
    noLostUpdate_of_undisturbed onAccounts_editAndSwitch hrun hfin undisturbed_afterSwitch⟩

/-- In one session she edits the display name of `u`, in the other one its password. -/
def twoEdits (second : Bool) : Request :=
  if second then .updateAccount (some otherContext) "u" (.ok passwordEdit)
  else .updateAccount (some annsContext) "u" (.ok labelEdit)

/-- The edit of the password falls between the other one's look at the row and its write. -/
def overlapped : List (Entry Bool World Op Ans) × Conf Bool World Op Ans Resp :=
  runFaulty .sample (fun _ => false) (false :: (List.replicate 6 true ++ List.replicate 6 false))
    twoEdits annsSessions

theorem length_overlapped : 4 < overlapped.1.length := by decide

/-- The write of the new password. -/
def passwordWrite : Entry Bool World Op Ans := overlapped.1.get ⟨4, length_overlapped⟩

theorem overlapped_eq :
    overlapped.1 = overlapped.1.take 4 ++ passwordWrite :: overlapped.1.drop 5 := by
  have hdrop : overlapped.1.drop 4 = passwordWrite :: overlapped.1.drop 5 :=
    List.drop_eq_getElem_cons length_overlapped
  rw [← hdrop, List.take_append_drop]

/-- The password before the edit, and after it. -/
def oldSecret : Secret := .sealed ⟨.dek 1, 1, "old-password"⟩
def newSecret : Secret := .sealed ⟨.dek 1, 10, "new-password"⟩

theorem changes_password : Changes .sample "ann" "u" overlapped.1 true .encIMAPPassword
    (.secret newSecret) := by
  have hsome : (accountWritten passwordWrite.event).isSome = true := by decide
  obtain ⟨acc, hacc⟩ := Option.isSome_iff_exists.mp hsome
  obtain ⟨dek, saved, hev⟩ := accountWritten_eq_some hacc
  have hwritten : (accountWritten passwordWrite.event).map
      (fun a => (a.encIMAPPassword, a.userEmail)) = some (newSecret, "ann") := by decide
  rw [hacc, Option.map_some] at hwritten
  obtain ⟨hsecret, howner⟩ := Prod.mk.inj (Option.some.inj hwritten)
  have hseen : annsAccount "u" "ann" ∈ (proj true (overlapped.1.take 4)).flatMap accountsRead := by
    decide
  obtain ⟨v, hv, hread⟩ := List.mem_flatMap.mp hseen
  refine .inl ⟨_, passwordWrite, _, acc, dek, saved, annsAccount "u" "ann", overlapped_eq,
    by decide, hev, by decide, ⟨v, hv, mem_accountsRead.mp hread⟩, rfl, howner.symm,
    ?_, ?_⟩
  · simp only [AccountField.get, hsecret]
    decide
  · simp only [AccountField.get, hsecret]

/-- The edit of the display name writes the password that it has read, and switches nothing. -/
def keepsPasswordAt (pre : List (Entry Bool World Op Ans)) (x : Entry Bool World Op Ans) : Bool :=
  match x.event with
  | ⟨.updateAccount acc _, .ok _⟩ => x.who ||
    ((proj x.who pre).flatMap accountsRead).all fun b => b.id ≠ "u" ||
      b.encIMAPPassword == acc.encIMAPPassword
  | _ => true

theorem labelEdit_keeps_password (v : FieldValue) :
    ¬Changes .sample "ann" "u" overlapped.1 false .encIMAPPassword v := by
  have hall : ∀ pre x post, overlapped.1 = pre ++ x :: post → keepsPasswordAt pre x = true :=
    forall_cuts (by decide)
  rintro (⟨pre, ⟨who, op, ans, before, after⟩, post, acc, dek, saved, b, htr, hwho, hev, -,
    ⟨u, hu, hread⟩, hid, -, hne, -⟩ | ⟨x, -, y, -, -, -, owner, target, old, -, -, -, hf, -⟩)
  · cases hev
    cases hwho
    have hcheck := List.all_eq_true.mp (hall _ _ _ htr) b
      (List.mem_flatMap.mpr ⟨u, hu, mem_accountsRead.mpr hread⟩)
    have hsame : b.encIMAPPassword = acc.encIMAPPassword := by simpa [hid] using hcheck
    exact hne (congrArg FieldValue.secret hsame)
  · cases hf

/-- The request was answered by a success. -/
def succeeded : Handler Resp → Bool
  | .ret resp => resp.isSuccess
  | .call _ _ => false

theorem acked_of_succeeded {ι : Type} {c : Conf ι World Op Ans Resp} {i : ι}
    (h : succeeded (c.procs i) = true) : Acked c i := by
  cases hret : c.procs i with
  | ret resp =>
    rw [hret] at h
    exact (acked_iff hret).mpr h
  | call o k =>
    rw [hret] at h
    cases h

/-- **An edit of the display name brings the old password back.** Both edits are acknowledged, and
only one of them has changed the password. -/
theorem old_password_back :
    Run (sem .sample) (start .sample twoEdits annsSessions) overlapped.1 overlapped.2 ∧
      (∀ i, (twoEdits i).onAccounts = true) ∧ (∀ i, Acked overlapped.2 i) ∧
      ¬NoLostUpdate .sample "ann" "u" overlapped.1 overlapped.2 := by
  have hack : ∀ i, succeeded (overlapped.2.procs i) = true := by decide +kernel
  refine ⟨run_runFaulty _ _ _ _ _, fun i => by cases i <;> rfl, fun i => acked_of_succeeded (hack i),
    fun hkept => ?_⟩
  have hnew := hkept true .encIMAPPassword _ (acked_of_succeeded (hack true)) changes_password
    fun j v hj _ => by
      obtain rfl : j = false := Bool.eq_false_of_not_eq_true hj
      exact labelEdit_keeps_password v
  have hold : overlapped.2.state.field "ann" "u" .encIMAPPassword = some (.secret oldSecret) := by
    decide +kernel
  rw [hold] at hnew
  cases hnew

end E2Mail.Backend
