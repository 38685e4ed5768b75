import E2Mail.Backend.AccountPaths
import E2Mail.Backend.PasswordAtomic

/-!
# One default account

The accounts of an owner are written by several requests at once, on what each
of them has read. Nothing in the table keeps an owner from having no default
account, or several; it is up to the requests.

* `Careful` — no write is out of date, and the default account is neither
  deleted nor switched to nothing;
* `DefaultInv` — the invariant, which also follows `SetDefaultAccount` between
  its two statements;
* `one_default` — then an owner who has had an account has accounts ever after,
  exactly one of them the default, whenever no switch is under way;
* `default_lost` — a run in which the owner deletes the default account.
-/

namespace E2Mail.Backend

open Lib

/-! ## Counting accounts -/

/-- How many accounts an owner column has. -/
def World.accountCount (key : String) (w : World) : Nat := w.accounts.count fun r => r.ownerID == key

/-- The row is a default account of the owner column. -/
def AccountRow.defaultOf (key : String) (r : AccountRow) : Bool :=
  r.ownerID == key && r.acc.isDefault

/-- How many default accounts an owner column has. -/
def World.defaultCount (key : String) (w : World) : Nat := w.accounts.count (·.defaultOf key)

theorem id_overwrite (a : Account) (dek now : Nat) (r : AccountRow) :
    (r.overwrite a dek now).id = r.id := rfl

section Counts

variable {P : Params} {key : String} {w w' : World}

theorem AccountRow.defaultOf_eq_true {r : AccountRow} :
    r.defaultOf key = true ↔ r.ownerID = key ∧ r.acc.isDefault = true := by
  rw [AccountRow.defaultOf, Bool.and_eq_true, beq_iff_eq]

theorem isOf_eq_true {owner id : String} {r : AccountRow} :
    r.isOf P owner id = true ↔ r.ownerID = P.ownerID owner ∧ r.id = id := by
  rw [AccountRow.isOf, decide_eq_true_eq]

theorem counts_of_accounts (key : String) (h : w'.accounts = w.accounts) :
    w'.accountCount key = w.accountCount key ∧ w'.defaultCount key = w.defaultCount key := by
  rw [World.accountCount, World.defaultCount, h]
  exact ⟨rfl, rfl⟩

/-- The owner has an account if it has a default one. -/
theorem accountCount_pos_of_default (h : 0 < w.defaultCount key) : 0 < w.accountCount key := by
  obtain ⟨r, hr, hdef⟩ := Table.count_pos.mp h
  exact Table.count_pos.mpr ⟨r, hr, beq_iff_eq.mpr (AccountRow.defaultOf_eq_true.mp hdef).1⟩

/-- An insert that happens adds a row with the flag it was given. -/
theorem createAccount_counts (key : String) {a : Account} {dek : Nat} {r : Res Account}
    (h : sem P (.createAccount a dek) w r w') :
    w'.accounts = w.accounts ∨
      w'.accountCount key = w.accountCount key + (if P.ownerID a.userEmail = key then 1 else 0) ∧
      w'.defaultCount key = w.defaultCount key +
        (if P.ownerID a.userEmail = key ∧ a.isDefault = true then 1 else 0) := by
  rcases sem_cases h with ⟨-, rfl⟩ | ⟨e, -, rfl⟩
  swap
  · exact .inl rfl
  simp only [exec, World.createAccount]
  split
  · refine .inl ?_
    split <;> rfl
  · split
    · refine .inl ?_
      split <;> rfl
    · rename_i t ht
      refine .inr ⟨?_, ?_⟩
      · simpa [World.accountCount] using Table.count_insert? ht fun r => r.ownerID == key
      · have hcount := Table.count_insert? ht (AccountRow.defaultOf key)
        simpa [World.defaultCount, AccountRow.defaultOf_eq_true] using hcount

/-- An update that keeps the flags of the rows it matches keeps the counts. -/
theorem updateAccount_counts {a : Account} {dek : Nat} {r : Res Account}
    (h : sem P (.updateAccount a dek) w r w')
    (hflag : ∀ r ∈ w.accounts.rows, r.ownerID = key → r.isOf P a.userEmail a.id = true →
      r.acc.isDefault = a.isDefault) :
    w'.accountCount key = w.accountCount key ∧ w'.defaultCount key = w.defaultCount key := by
  rcases sem_cases h with ⟨-, rfl⟩ | ⟨e, -, rfl⟩
  swap
  · exact ⟨rfl, rfl⟩
  simp only [exec, World.updateAccount]
  split
  · exact ⟨rfl, rfl⟩
  · refine ⟨?_, ?_⟩
    · rw [World.accountCount, World.accountCount]
      exact Table.count_update (id_overwrite a dek w.now) fun r _ _ => rfl
    rw [World.defaultCount, World.defaultCount]
    refine Table.count_update (id_overwrite a dek w.now) fun r hr hof => ?_
    by_cases hkey : r.ownerID = key
    · simp [AccountRow.defaultOf, AccountRow.overwrite, hflag r hr hkey hof]
    · have hne : (r.ownerID == key) = false := beq_eq_false_iff_ne.mpr hkey
      simp [AccountRow.defaultOf, AccountRow.overwrite, hne]

/-- A delete that spares the default accounts keeps their count. -/
theorem deleteAccount_counts {owner id : String} {r : Res Unit}
    (h : sem P (.deleteAccount owner id) w r w')
    (hspare : r = .ok () → ∀ r ∈ w.accounts.rows, r.ownerID = key → r.isOf P owner id = true →
      r.acc.isDefault = false) :
    w'.accountCount key ≤ w.accountCount key ∧ w'.defaultCount key = w.defaultCount key := by
  rcases sem_cases h with ⟨hr, rfl⟩ | ⟨e, -, rfl⟩
  swap
  · exact ⟨Nat.le_refl _, rfl⟩
  refine ⟨List.Sublist.countP_le List.filter_sublist, Table.count_delete fun r hrow hdef => ?_⟩
  obtain ⟨hkey, hflag⟩ := AccountRow.defaultOf_eq_true.mp hdef
  by_contra hof
  rw [hspare hr r hrow hkey (Bool.eq_true_of_not_eq_false hof)] at hflag
  cases hflag

theorem rows_clearDefaults (owner : String) :
    (w.clearDefaults P owner).accounts.rows = w.accounts.rows.map fun r =>
      if r.ownedBy P owner then r.clearDefault else r := rfl

theorem rows_markDefault (owner id : String) :
    (w.markDefault P owner id).2.accounts.rows = w.accounts.rows.map fun r =>
      if r.isOf P owner id then r.setDefault w.now else r := rfl

/-- Clearing the defaults of an owner column. -/
theorem clearDefaults_counts (P : Params) (key owner : String) (w : World) :
    (w.clearDefaults P owner).accountCount key = w.accountCount key ∧
      (w.clearDefaults P owner).defaultCount key =
        if P.ownerID owner = key then 0 else w.defaultCount key := by
  rw [World.accountCount, World.accountCount, World.defaultCount, World.defaultCount, Table.count,
    Table.count, Table.count, Table.count, rows_clearDefaults, List.countP_map, List.countP_map]
  refine ⟨List.countP_congr fun r _ => ?_, ?_⟩
  · simp only [Function.comp_apply]
    split <;> rfl
  split
  · rename_i hkey
    refine List.countP_eq_zero.mpr fun r _ => ?_
    simp only [Function.comp_apply]
    by_cases hown : r.ownedBy P owner = true
    · simp [hown, AccountRow.defaultOf, AccountRow.clearDefault]
    · have hne : (r.ownerID == key) = false := by
        refine beq_eq_false_iff_ne.mpr fun h => hown (decide_eq_true (h.trans hkey.symm))
      simp [hown, AccountRow.defaultOf, hne]
  · rename_i hkey
    refine List.countP_congr fun r _ => ?_
    simp only [Function.comp_apply]
    by_cases hown : r.ownedBy P owner = true
    · have hne : (r.ownerID == key) = false :=
        beq_eq_false_iff_ne.mpr fun h => hkey ((of_decide_eq_true hown).symm.trans h)
      simp [hown, AccountRow.defaultOf, AccountRow.clearDefault, hne]
    · rw [if_neg hown]

/-- Setting the flag of the one row that has the id, where no other has the flag. -/
theorem markDefault_counts (P : Params) (key owner id : String) (w : World) :
    (w.markDefault P owner id).2.accountCount key = w.accountCount key ∧
      (P.ownerID owner ≠ key → (w.markDefault P owner id).2.defaultCount key = w.defaultCount key) ∧
      (P.ownerID owner = key → w.defaultCount key = 0 →
        (∃ r ∈ w.accounts.rows, r.isOf P owner id = true) →
        (w.markDefault P owner id).2.defaultCount key = 1) := by
  rw [World.accountCount, World.accountCount, World.defaultCount, World.defaultCount, Table.count,
    Table.count, Table.count, Table.count, rows_markDefault, List.countP_map, List.countP_map]
  refine ⟨List.countP_congr fun r _ => ?_, fun hkey => List.countP_congr fun r _ => ?_, ?_⟩
  · simp only [Function.comp_apply]
    split <;> rfl
  · simp only [Function.comp_apply]
    by_cases hof : r.isOf P owner id = true
    · have hne : (r.ownerID == key) = false :=
        beq_eq_false_iff_ne.mpr fun h => hkey ((isOf_eq_true.mp hof).1.symm.trans h)
      simp [hof, AccountRow.defaultOf, AccountRow.setDefault, hne]
    · rw [if_neg hof]
  · intro hkey hzero htarget
    have hnone := List.countP_eq_zero.mp hzero
    -- the default rows afterwards are the rows with the id
    have hcount : w.accounts.rows.countP ((·.defaultOf key) ∘ fun r =>
        if r.isOf P owner id then r.setDefault w.now else r) =
        w.accounts.count (·.isOf P owner id) := by
      rw [Table.count]
      refine List.countP_congr fun r hr => ?_
      simp only [Function.comp_apply]
      by_cases hof : r.isOf P owner id = true
      · have howner := (isOf_eq_true.mp hof).1.trans hkey
        simp [hof, AccountRow.defaultOf, AccountRow.setDefault, howner]
      · simp [hof, hnone r hr]
    rw [hcount]
    refine Nat.le_antisymm (Table.count_le_one (k := id) ?_) (Table.count_pos.mpr htarget)
    exact fun r _ hof => (isOf_eq_true.mp hof).2

end Counts

/-! ## The condition -/

variable {ι : Type}

/-- The call sees whether the owner column has accounts. -/
def SeesWhether (P : Params) (key : String) (e : Entry ι World Op Ans) : Prop :=
  ∃ owner, P.ownerID owner = key ∧
    (e.op = .countAccounts owner ∨ ∃ dek, e.op = .listAccounts owner dek)

/-- The call reads accounts. -/
def ReadsAccounts (e : Entry ι World Op Ans) : Prop :=
  (∃ owner dek, e.op = .listAccounts owner dek) ∨ ∃ owner id dek, e.op = .getAccount owner id dek

/-- The writes of the owner column's accounts do what they were meant to. -/
structure Careful (P : Params) (key : String) (reqs : ι → Request)
    (tr : List (Entry ι World Op Ans)) : Prop where
  /-- at an insert the owner has accounts just if there were some when the request counted -/
  counted : ∀ x y a dek, [x, y].Sublist tr → x.who = y.who → SeesWhether P key x →
    y.op = .createAccount a dek → P.ownerID a.userEmail = key →
    (y.pre.accountCount key = 0 ↔ x.pre.accountCount key = 0)
  /-- at an update the row is a default account just if it was when the request read it -/
  flagged : ∀ x y a dek, [x, y].Sublist tr → x.who = y.who → ReadsAccounts x →
    y.op = .updateAccount a dek → ∀ r ∈ x.pre.accounts.rows, ∀ r' ∈ y.pre.accounts.rows,
    r'.ownerID = key → r.isOf P a.userEmail a.id = true → r'.isOf P a.userEmail a.id = true →
    r'.acc.isDefault = r.acc.isDefault
  /-- the default account is not deleted -/
  deleted : ∀ y ∈ tr, ∀ owner id, y.event = ⟨.deleteAccount owner id, .ok ()⟩ →
    ∀ r ∈ y.pre.accounts.rows, r.ownerID = key → r.isOf P owner id = true → r.acc.isDefault = false
  /-- the account switched to exists -/
  target : ∀ y ∈ tr, ∀ owner ctx id, y.event = ⟨.clearDefaults owner, .ok ()⟩ →
    P.ownerID owner = key → 0 < y.pre.accountCount key →
    reqs y.who = .setDefaultAccount (some ctx) id →
    ∃ r ∈ y.pre.accounts.rows, r.isOf P owner id = true
  /-- the second statement of a switch does not fail -/
  marked : ∀ y ∈ tr, ∀ owner id err, y.event = ⟨.markDefault owner id, .error err⟩ →
    P.ownerID owner = key → y.pre.accountCount key = 0

/-! ## The invariant -/

variable [DecidableEq ι]

/-- The request is between the two statements of a switch. -/
def Switching (tr : List (Entry ι World Op Ans)) (i : ι) (owner : String) : Prop :=
  Clearing owner (proj i tr)

/-- No switch of the owner column is under way. -/
def NotSwitching (P : Params) (key : String) (tr : List (Entry ι World Op Ans)) : Prop :=
  ∀ i owner, Switching tr i owner → P.ownerID owner ≠ key

/-- What holds of the default account in every state of a run. -/
structure DefaultInv (P : Params) (key : String) (reqs : ι → Request)
    (tr : List (Entry ι World Op Ans)) (w : World) : Prop where
  /-- a switch holds the lock -/
  lock : ∀ i owner, Switching tr i owner → w.mu = true
  /-- one switch at a time -/
  one : ∀ i j owner owner', Switching tr i owner → Switching tr j owner' → i = j
  /-- outside of a switch an owner with accounts has one default account -/
  settled : NotSwitching P key tr → 0 < w.accountCount key → w.defaultCount key = 1
  /-- inside of a switch there is none, but the account to become it exists -/
  between : ∀ i owner, Switching tr i owner → P.ownerID owner = key → w.defaultCount key = 0 ∧
    (0 < w.accountCount key → ∀ ctx id, reqs i = .setDefaultAccount (some ctx) id →
      ∃ r ∈ w.accounts.rows, r.isOf P owner id = true)

/-- Calls that write account rows. -/
def Op.writesAccounts : Op → Bool
  | createAccount _ _ | updateAccount _ _ | deleteAccount _ _ | clearDefaults _
  | markDefault _ _ => true
  | _ => false

theorem Op.part_ne_accounts {o : Op} (hwrite : o.writesAccounts = false)
    (hread : o.isRead = false) : o.part ≠ .accounts := by
  intro hpart
  cases o <;> first | (cases hpart; done) | (cases hread; done) | cases hwrite

section Steps

variable {P : Params} {key : String} {reqs : ι → Request} {tr : List (Entry ι World Op Ans)}
  {e : Entry ι World Op Ans}

theorem switching_snoc {i : ι} {owner : String} :
    Switching (tr ++ [e]) i owner ↔
      if e.who = i then e.event = ⟨.clearDefaults owner, .ok ()⟩ else Switching tr i owner := by
  by_cases hi : e.who = i
  · subst hi
    rw [if_pos rfl, Switching, Clearing, proj_snoc_self, List.getLast?_concat]
    exact Option.some_inj
  · rw [if_neg hi, Switching, Switching, proj_snoc_ne tr hi]

/-- A call other than the two statements begins and ends no switch. -/
theorem switching_other (hrule : AccountRule (reqs e.who) (proj e.who tr) e.op)
    (hclear : ∀ owner, e.event ≠ ⟨.clearDefaults owner, .ok ()⟩)
    (hmark : ∀ owner id, e.op ≠ .markDefault owner id) (i : ι) (owner : String) :
    Switching (tr ++ [e]) i owner ↔ Switching tr i owner := by
  rw [switching_snoc]
  split
  · rename_i hi
    subst hi
    refine ⟨fun h => absurd h (hclear owner), fun h => ?_⟩
    obtain ⟨id, hop⟩ := hrule.next owner h
    exact absurd hop (hmark owner id)
  · rfl

/-- Without a switch under way the invariant is what `settled` says. -/
theorem DefaultInv.of_settled {w : World} (hno : ∀ i owner, ¬Switching tr i owner)
    (h : 0 < w.accountCount key → w.defaultCount key = 1) : DefaultInv P key reqs tr w :=
  ⟨fun i owner hs => absurd hs (hno i owner), fun i _ owner _ hs => absurd hs (hno i owner),
    fun _ => h, fun i owner hs => absurd hs (hno i owner)⟩

/-- A call that leaves accounts and lock alone. -/
theorem DefaultInv.frame (hi : DefaultInv P key reqs tr e.pre)
    (hrule : AccountRule (reqs e.who) (proj e.who tr) e.op)
    (hclear : ∀ owner, e.event ≠ ⟨.clearDefaults owner, .ok ()⟩)
    (hmark : ∀ owner id, e.op ≠ .markDefault owner id)
    (haccounts : e.post.accounts = e.pre.accounts) (hmu : e.post.mu = e.pre.mu) :
    DefaultInv P key reqs (tr ++ [e]) e.post := by
  have hswitch := switching_other hrule hclear hmark
  obtain ⟨hcount, hdefault⟩ := counts_of_accounts key haccounts
  refine ⟨fun i owner hs => ?_, fun i j owner owner' hs hs' => ?_, fun hno hpos => ?_, ?_⟩
  · rw [hmu]
    exact hi.lock i owner ((hswitch i owner).mp hs)
  · exact hi.one i j owner owner' ((hswitch i owner).mp hs) ((hswitch j owner').mp hs')
  · rw [hdefault]
    rw [hcount] at hpos
    exact hi.settled (fun i owner hs => hno i owner ((hswitch i owner).mpr hs)) hpos
  · intro i owner hs hkey
    rw [hdefault, hcount, haccounts]
    exact hi.between i owner ((hswitch i owner).mp hs) hkey

/-- While the lock is free no switch is under way. -/
theorem DefaultInv.not_switching {w : World} (hi : DefaultInv P key reqs tr w) (hmu : w.mu = false)
    (i : ι) (owner : String) : ¬Switching tr i owner := by
  intro hs
  rw [hi.lock i owner hs] at hmu
  cases hmu

/-- A write outside of a switch that keeps one default account. -/
theorem DefaultInv.write (hi : DefaultInv P key reqs tr e.pre) (hmu : e.pre.mu = false)
    (hrule : AccountRule (reqs e.who) (proj e.who tr) e.op)
    (hclear : ∀ owner, e.event ≠ ⟨.clearDefaults owner, .ok ()⟩)
    (hmark : ∀ owner id, e.op ≠ .markDefault owner id)
    (h : (0 < e.pre.accountCount key → e.pre.defaultCount key = 1) →
      0 < e.post.accountCount key → e.post.defaultCount key = 1) :
    DefaultInv P key reqs (tr ++ [e]) e.post := by
  have hno := hi.not_switching hmu
  refine .of_settled (fun i owner hs => hno i owner ?_) (h (hi.settled fun i owner hs => ?_))
  · exact (switching_other hrule hclear hmark i owner).mp hs
  · exact absurd hs (hno i owner)

end Steps

/-! ## The steps -/

section Run

variable {P : Params} {key : String} {reqs : ι → Request} {w : World}
  {tr : List (Entry ι World Op Ans)} {c : Conf ι World Op Ans Resp} {e : Entry ι World Op Ans}

omit [DecidableEq ι] in
theorem Careful.prefix {tr' : List (Entry ι World Op Ans)} (h : Careful P key reqs (tr ++ tr')) :
    Careful P key reqs tr := by
  have hsub : tr.Sublist (tr ++ tr') := List.sublist_append_left tr tr'
  exact ⟨fun x y a dek hxy => h.counted x y a dek (hxy.trans hsub),
    fun x y a dek hxy => h.flagged x y a dek (hxy.trans hsub),
    fun y hy => h.deleted y (hsub.subset hy), fun y hy => h.target y (hsub.subset hy),
    fun y hy => h.marked y (hsub.subset hy)⟩

omit [DecidableEq ι] in
theorem accountCount_eq (owner : String) :
    w.accountCount (P.ownerID owner) = (w.rowsOf (P.ownerID owner)).length := by
  rw [World.accountCount, Table.count, World.rowsOf, ← List.countP_eq_length_filter]
  exact List.countP_congr fun r _ => by simp

/-- What a request counted is what there was. -/
theorem counted_answer (hrun : Run (sem P) (start P reqs w) tr c) {i : ι} {owner : String}
    {isDefault : Bool} {v : Event Op Ans} (hv : v ∈ proj i tr) (hcount : Counted owner isDefault v) :
    ∃ x ∈ tr, x.who = i ∧ SeesWhether P (P.ownerID owner) x ∧
      isDefault = decide (x.pre.accountCount (P.ownerID owner) = 0) := by
  obtain ⟨x, hx, hwho, hev⟩ := mem_proj.mp hv
  have hsem := hrun.sem_of_mem hx
  obtain ⟨who, op, ans, pre, post⟩ := x
  rcases hcount with ⟨n, rfl, rfl⟩ | ⟨dek, rfl, rfl⟩
  · cases hev
    have hans := (sem_answer hsem fun _ => nofun).1
    refine ⟨_, hx, hwho, ⟨owner, rfl, .inl rfl⟩, ?_⟩
    rw [accountCount_eq, Except.ok.inj hans]
    rfl
  · cases hev
    have hans := (sem_answer hsem fun _ => nofun).1
    refine ⟨_, hx, hwho, ⟨owner, rfl, .inr ⟨dek, rfl⟩⟩, ?_⟩
    rw [accountCount_eq, rowsOf_of_listAccounts_nil hans.symm]
    rfl

/-- What a request has read is a stored row. -/
theorem read_answer (hrun : Run (sem P) (start P reqs w) tr c) {i : ι} {b : Account}
    {v : Event Op Ans} (hv : v ∈ proj i tr) (hread : ReadAccount b v) :
    ∃ x ∈ tr, x.who = i ∧ ReadsAccounts x ∧ ∃ r ∈ x.pre.accounts.rows,
      r.isOf P b.userEmail b.id = true ∧ r.acc.isDefault = b.isDefault := by
  obtain ⟨x, hx, hwho, hev⟩ := mem_proj.mp hv
  have hsem := hrun.sem_of_mem hx
  obtain ⟨who, op, ans, pre, post⟩ := x
  rcases hread with ⟨owner, dek, accounts, rfl, hb⟩ | ⟨owner, id, dek, rfl⟩
  · cases hev
    have hans := (sem_answer hsem fun _ => nofun).1
    obtain ⟨r, hr, hof, hbr⟩ := row_of_listAccounts hans.symm hb
    have howner : b.userEmail = owner := by rw [hbr]
    have hflag : r.acc.isDefault = b.isDefault := by rw [hbr]
    exact ⟨_, hx, hwho, .inl ⟨owner, dek, rfl⟩, r, hr, howner.symm ▸ hof, hflag⟩
  · cases hev
    have hans := (sem_answer hsem fun _ => nofun).1
    obtain ⟨r, hr, hof, hbr⟩ := row_of_getAccount hans.symm
    have howner : b.userEmail = owner := by rw [hbr]
    have hflag : r.acc.isDefault = b.isDefault := by rw [hbr]
    exact ⟨_, hx, hwho, .inr ⟨owner, id, dek, rfl⟩, r, hr, howner.symm ▸ hof, hflag⟩

omit [DecidableEq ι] in
/-- An earlier call and the call after the trace. -/
theorem sublist_snoc {x : Entry ι World Op Ans} (hx : x ∈ tr) : [x, e].Sublist (tr ++ [e]) :=
  (List.singleton_sublist.mpr hx).append (List.Sublist.refl [e])

/-- An insert keeps one default account: the flag it inserts is what the owner lacks. -/
theorem step_createAccount (hrun : Run (sem P) (start P reqs w) tr c)
    (hcare : Careful P key reqs (tr ++ [e]))
    (hrule : AccountRule (reqs e.who) (proj e.who tr) e.op) (hsem : sem P e.op e.pre e.ans e.post)
    {a : Account} {dek : Nat} (hop : e.op = .createAccount a dek)
    (hone : 0 < e.pre.accountCount key → e.pre.defaultCount key = 1) :
    (0 < e.post.accountCount key → e.post.defaultCount key = 1) ∧
      e.pre.accountCount key ≤ e.post.accountCount key := by
  obtain ⟨v, hv, hcount⟩ := hrule.insert a dek hop
  obtain ⟨x, hx, hwho, hsees, hflag⟩ := counted_answer hrun hv hcount
  have hsame : P.ownerID a.userEmail = key →
      (e.pre.accountCount key = 0 ↔ x.pre.accountCount key = 0) := by
    rintro rfl
    exact hcare.counted x e a dek (sublist_snoc hx) hwho hsees hop rfl
  obtain ⟨who, op, ans, pre, post⟩ := e
  cases hop
  rcases createAccount_counts key hsem with hacc | ⟨htotal, hdefault⟩
  · obtain ⟨h₁, h₂⟩ := counts_of_accounts key hacc
    exact ⟨fun h => h₂.trans (hone (h₁ ▸ h)), h₁.ge⟩
  dsimp only at hone ⊢
  rw [htotal, hdefault]
  by_cases hkey : P.ownerID a.userEmail = key
  swap
  · simp only [hkey, if_false, false_and, Nat.add_zero]
    exact ⟨hone, Nat.le_refl _⟩
  have hsame := hsame hkey
  dsimp only at hsame
  rw [hkey] at hflag
  simp only [hkey, if_true, true_and]
  refine ⟨fun _ => ?_, Nat.le_add_right _ _⟩
  by_cases hzero : pre.accountCount key = 0
  · have hdef : a.isDefault = true := by
      rw [hflag, hsame.mp hzero]
      rfl
    have hnone : pre.defaultCount key = 0 := by
      by_contra hne
      have hpos := accountCount_pos_of_default (Nat.pos_of_ne_zero hne)
      omega
    simp [hdef, hnone]
  · have hdef : a.isDefault = false := by
      rw [hflag]
      exact decide_eq_false fun h => hzero (hsame.mpr h)
    simp [hdef, hone (Nat.pos_of_ne_zero hzero)]

/-- An update keeps the counts: it writes back the flag the row still has. -/
theorem step_updateAccount (hrun : Run (sem P) (start P reqs w) tr c)
    (hcare : Careful P key reqs (tr ++ [e]))
    (hrule : AccountRule (reqs e.who) (proj e.who tr) e.op) (hsem : sem P e.op e.pre e.ans e.post)
    {a : Account} {dek : Nat} (hop : e.op = .updateAccount a dek) :
    e.post.accountCount key = e.pre.accountCount key ∧
      e.post.defaultCount key = e.pre.defaultCount key := by
  obtain ⟨v, hv, b, hread, hsame⟩ := hrule.update a dek hop
  obtain ⟨x, hx, hwho, hreads, r, hr, hof, hflag⟩ := read_answer hrun hv hread
  rw [← hsame.owner, ← hsame.id] at hof
  have hkeep : ∀ r' ∈ e.pre.accounts.rows, r'.ownerID = key →
      r'.isOf P a.userEmail a.id = true → r'.acc.isDefault = a.isDefault := by
    intro r' hr' hkey hof'
    rw [hcare.flagged x e a dek (sublist_snoc hx) hwho hreads hop r hr r' hr' hkey hof hof', hflag,
      hsame.isDefault]
  obtain ⟨who, op, ans, pre, post⟩ := e
  cases hop
  exact updateAccount_counts hsem hkeep

omit [DecidableEq ι] in
/-- A delete of another account than the default one keeps one default account. -/
theorem step_deleteAccount (hcare : Careful P key reqs (tr ++ [e]))
    (hsem : sem P e.op e.pre e.ans e.post) {owner id : String} (hop : e.op = .deleteAccount owner id) :
    e.post.accountCount key ≤ e.pre.accountCount key ∧
      e.post.defaultCount key = e.pre.defaultCount key := by
  have hdel := hcare.deleted e (by simp) owner id
  obtain ⟨who, op, ans, pre, post⟩ := e
  cases hop
  refine deleteAccount_counts hsem fun hok => hdel ?_
  exact congrArg (Sigma.mk _) hok

/-- The first statement of a switch, which succeeds. -/
theorem step_clearDefaults (hi : DefaultInv P key reqs tr e.pre) (hmu : e.pre.mu = false)
    (hcare : Careful P key reqs (tr ++ [e])) {owner : String}
    (hev : e.event = ⟨.clearDefaults owner, .ok ()⟩)
    (hpost : e.post = e.pre.clearDefaults P owner) :
    DefaultInv P key reqs (tr ++ [e]) e.post := by
  have hno := hi.not_switching hmu
  -- the only switch under way is this one
  have honly : ∀ i owner', Switching (tr ++ [e]) i owner' → i = e.who ∧ owner' = owner := by
    intro i owner' hs
    rw [switching_snoc] at hs
    split at hs
    · rename_i hwho
      rw [hev] at hs
      cases hs
      exact ⟨hwho.symm, rfl⟩
    · exact absurd hs (hno i owner')
  have hself : Switching (tr ++ [e]) e.who owner := by
    rw [switching_snoc, if_pos rfl]
    exact hev
  obtain ⟨htotal, hdefault⟩ := clearDefaults_counts P key owner e.pre
  have htarget := hcare.target e (by simp) owner
  rw [hpost]
  refine ⟨fun _ _ _ => rfl, ?_, ?_, ?_⟩
  · intro i j o o' hs hs'
    rw [(honly i o hs).1, (honly j o' hs').1]
  · intro hout hpos
    have hkey := hout e.who owner hself
    rw [hdefault, if_neg hkey]
    rw [htotal] at hpos
    exact hi.settled (fun i o hs => absurd hs (hno i o)) hpos
  · rintro i o hs hkey
    obtain ⟨rfl, rfl⟩ := honly i o hs
    rw [hdefault, if_pos hkey, htotal]
    refine ⟨rfl, fun hpos ctx id hreq => ?_⟩
    obtain ⟨r, hr, hof⟩ := htarget ctx id hev hkey hpos hreq
    refine ⟨if r.ownedBy P o then r.clearDefault else r, ?_, ?_⟩
    · rw [rows_clearDefaults]
      exact List.mem_map_of_mem hr
    · split
      · exact hof
      · exact hof

omit [DecidableEq ι] in
/-- What the second statement does, or that it failed. -/
theorem markDefault_cases (hsem : sem P e.op e.pre e.ans e.post) {owner id : String}
    (hop : e.op = .markDefault owner id) :
    e.post = (e.pre.markDefault P owner id).2 ∨
      (∃ err, e.event = ⟨.markDefault owner id, .error err⟩) ∧ e.post.accounts = e.pre.accounts := by
  obtain ⟨who, op, ans, pre, post⟩ := e
  cases hop
  rcases sem_cases hsem with ⟨-, h⟩ | ⟨err, hans, h⟩
  · exact .inl h
  · refine .inr ⟨⟨err, congrArg (Sigma.mk _) (Option.some.inj hans).symm⟩, ?_⟩
    rw [show post = _ from h]
    rfl

/-- The second statement of a switch: outside of the owner column it changes nothing, inside it
makes the one default account. -/
theorem step_markDefault (hi : DefaultInv P key reqs tr e.pre)
    (hcare : Careful P key reqs (tr ++ [e]))
    (hrule : AccountRule (reqs e.who) (proj e.who tr) e.op) (hsem : sem P e.op e.pre e.ans e.post)
    {owner id : String} (hop : e.op = .markDefault owner id) :
    DefaultInv P key reqs (tr ++ [e]) e.post ∧
      e.post.accountCount key = e.pre.accountCount key := by
  obtain ⟨hself, ctx, hreq, -⟩ := hrule.mark owner id hop
  have hself : Switching tr e.who owner := hself
  -- the switch is over, and it was the only one
  have hno : ∀ i owner', ¬Switching (tr ++ [e]) i owner' := by
    intro i owner' hs
    rw [switching_snoc] at hs
    split at hs
    · have hop' : e.op = .clearDefaults owner' := congrArg Sigma.fst hs
      rw [hop] at hop'
      cases hop'
    · rename_i hne
      exact hne (hi.one e.who i owner owner' hself hs)
  have hout : P.ownerID owner ≠ key → NotSwitching P key tr := by
    intro hkey i owner' hs
    obtain rfl := hi.one e.who i owner owner' hself hs
    have heq : some (⟨.clearDefaults owner, .ok ()⟩ : Event Op Ans) =
        some ⟨.clearDefaults owner', .ok ()⟩ := hself.symm.trans hs
    cases heq
    exact hkey
  rcases markDefault_cases hsem hop with hpost | ⟨⟨err, hev⟩, haccounts⟩
  · obtain ⟨htotal, hother, hown⟩ := markDefault_counts P key owner id e.pre
    rw [hpost]
    refine ⟨.of_settled hno fun hpos => ?_, htotal⟩
    rw [htotal] at hpos
    by_cases hkey : P.ownerID owner = key
    · obtain ⟨hzero, htarget⟩ := hi.between e.who owner hself hkey
      exact hown hkey hzero (htarget hpos ctx id hreq)
    · exact (hother hkey).trans (hi.settled (hout hkey) hpos)
  · obtain ⟨htotal, hdefault⟩ := counts_of_accounts key haccounts
    refine ⟨.of_settled hno fun hpos => ?_, htotal⟩
    rw [htotal] at hpos
    by_cases hkey : P.ownerID owner = key
    · -- the second statement failed, so the owner has no account
      have hzero := hcare.marked e (by simp) owner id err hev hkey
      omega
    · exact hdefault.trans (hi.settled (hout hkey) hpos)

omit [DecidableEq ι] in
/-- What the first statement does, or that it failed. -/
theorem clearDefaults_cases (hsem : sem P e.op e.pre e.ans e.post) {owner : String}
    (hop : e.op = .clearDefaults owner) :
    (e.event = ⟨.clearDefaults owner, .ok ()⟩ ∧ e.post = e.pre.clearDefaults P owner) ∨
      (∀ owner', e.event ≠ ⟨.clearDefaults owner', .ok ()⟩) ∧ e.post = e.pre := by
  obtain ⟨who, op, ans, pre, post⟩ := e
  cases hop
  rcases sem_cases hsem with ⟨hans, h⟩ | ⟨err, hans, h⟩
  · exact .inl ⟨congrArg (Sigma.mk _) hans, h⟩
  · refine .inr ⟨fun owner' hev => ?_, h⟩
    cases hans
    cases hev

omit [DecidableEq ι] in
/-- A call that does not write accounts leaves them and the lock alone. -/
theorem accounts_of_not_writes (hsem : sem P e.op e.pre e.ans e.post)
    (hop : e.op.writesAccounts = false) :
    e.post.accounts = e.pre.accounts ∧ e.post.mu = e.pre.mu := by
  by_cases hread : e.op.isRead = true
  · rw [sem_read hsem hread]
    exact ⟨rfl, rfl⟩
  · have hpart := Op.part_ne_accounts hop (Bool.eq_false_of_not_eq_true hread)
    exact ⟨(sem_frame hsem).accounts hpart, (sem_frame hsem).mu hpart⟩

/-- **One call keeps the invariant**, and the owner's having accounts. -/
theorem step_default (hrun : Run (sem P) (start P reqs w) tr c)
    (hcare : Careful P key reqs (tr ++ [e]))
    (hrule : AccountRule (reqs e.who) (proj e.who tr) e.op) (hsem : sem P e.op e.pre e.ans e.post)
    (hi : DefaultInv P key reqs tr e.pre) :
    DefaultInv P key reqs (tr ++ [e]) e.post ∧
      (0 < e.pre.accountCount key → 0 < e.post.accountCount key) := by
  have hevent : (∀ owner, e.op ≠ .clearDefaults owner) →
      ∀ owner, e.event ≠ ⟨.clearDefaults owner, .ok ()⟩ :=
    fun hop owner hev => hop owner (congrArg Sigma.fst hev)
  by_cases hquiet : e.op.writesAccounts = false
  · have hsame := accounts_of_not_writes hsem hquiet
    obtain ⟨htotal, -⟩ := counts_of_accounts key hsame.1
    refine ⟨hi.frame hrule (hevent ?_) ?_ hsame.1 hsame.2, fun h => htotal ▸ h⟩
    · intro owner hop
      rw [hop] at hquiet
      cases hquiet
    · intro owner id hop
      rw [hop] at hquiet
      cases hquiet
  -- writers wait for the lock
  have hsettled : takesLock e.op = true → e.pre.mu = false ∧
      (0 < e.pre.accountCount key → e.pre.defaultCount key = 1) := fun ht =>
    ⟨hsem.1 ht, hi.settled fun i owner hs => absurd hs (hi.not_switching (hsem.1 ht) i owner)⟩
  cases hop : e.op with
  | createAccount a dek =>
    obtain ⟨hmu, hone⟩ := hsettled (by rw [hop]; rfl)
    obtain ⟨hone', hle⟩ := step_createAccount hrun hcare hrule hsem hop hone
    refine ⟨hi.write hmu hrule (hevent (by simp [hop])) (by simp [hop]) fun _ => hone', ?_⟩
    exact fun hpos => Nat.lt_of_lt_of_le hpos hle
  | updateAccount a dek =>
    obtain ⟨hmu, hone⟩ := hsettled (by rw [hop]; rfl)
    obtain ⟨htotal, hdefault⟩ := step_updateAccount hrun hcare hrule hsem hop
    rw [← htotal, ← hdefault] at hone
    exact ⟨hi.write hmu hrule (hevent (by simp [hop])) (by simp [hop]) fun _ => hone,
      fun hpos => htotal ▸ hpos⟩
  | deleteAccount owner id =>
    obtain ⟨hmu, hone⟩ := hsettled (by rw [hop]; rfl)
    obtain ⟨hle, hdefault⟩ := step_deleteAccount hcare hsem hop
    refine ⟨hi.write hmu hrule (hevent (by simp [hop])) (by simp [hop]) ?_, fun hpos => ?_⟩
    · exact fun hone hpos => hdefault.trans (hone (Nat.lt_of_lt_of_le hpos hle))
    · -- the default account is still there
      refine accountCount_pos_of_default ?_
      rw [hdefault, hone hpos]
      exact Nat.one_pos
  | clearDefaults owner =>
    obtain ⟨hmu, -⟩ := hsettled (by rw [hop]; rfl)
    rcases clearDefaults_cases hsem hop with ⟨hev, hpost⟩ | ⟨hev, hpost⟩
    · refine ⟨step_clearDefaults hi hmu hcare hev hpost, fun hpos => ?_⟩
      rw [hpost, (clearDefaults_counts P key _ _).1]
      exact hpos
    · refine ⟨hi.frame hrule hev (by simp [hop]) (by rw [hpost]) (by rw [hpost]), fun hpos => ?_⟩
      rw [hpost]
      exact hpos
  | markDefault owner id =>
    obtain ⟨hi', htotal⟩ := step_markDefault hi hcare hrule hsem hop
    exact ⟨hi', fun hpos => htotal ▸ hpos⟩
  | _ =>
    rw [hop] at hquiet
    exact absurd rfl hquiet

/-- **An owner keeps accounts, one of them the default.** In every run whose writes are careful,
of any number of requests of any kind and any owner, any call failing: once the owner has an
account, it always has one, and exactly one default account, whenever no switch of the owner's
default account is between its two statements. -/
theorem one_default (hcare : Careful P key reqs tr)
    (hone : 0 < w.accountCount key → w.defaultCount key = 1)
    (hrun : Run (sem P) (start P reqs w) tr c) :
    ((0 < w.accountCount key ∨ ∃ e ∈ tr, 0 < e.post.accountCount key) →
      0 < c.state.accountCount key) ∧
    (0 < c.state.accountCount key → NotSwitching P key tr → c.state.defaultCount key = 1) := by
  have hinv : Careful P key reqs tr → DefaultInv P key reqs tr c.state ∧
      ((0 < w.accountCount key ∨ ∃ e ∈ tr, 0 < e.post.accountCount key) →
        0 < c.state.accountCount key) := by
    refine hrun.invariant (I := fun tr s => Careful P key reqs tr → DefaultInv P key reqs tr s ∧
      ((0 < w.accountCount key ∨ ∃ e ∈ tr, 0 < e.post.accountCount key) →
        0 < s.accountCount key)) ?_ ?_
    · intro _
      refine ⟨.of_settled (fun i owner hs => by cases hs) hone, ?_⟩
      rintro (hpos | ⟨e, he, -⟩)
      · exact hpos
      · cases he
    · rintro tr c e hrun - ⟨k, hk⟩ hsem ih hcare
      obtain ⟨hi, hhad⟩ := ih hcare.prefix
      have hrule := hrun.along (fun i => accountRule_prog P (reqs i)) hk
      obtain ⟨hi', hkeep⟩ := step_default hrun hcare hrule hsem hi
      refine ⟨hi', ?_⟩
      rintro (hpos | ⟨e', he', hpos⟩)
      · exact hkeep (hhad (.inl hpos))
      · rcases List.mem_append.mp he' with he' | he'
        · exact hkeep (hhad (.inr ⟨e', he', hpos⟩))
        · obtain rfl := List.mem_singleton.mp he'
          exact hpos
  obtain ⟨hi, hhad⟩ := hinv hcare
  exact ⟨hhad, fun hpos hno => hi.settled hno hpos⟩

end Run

/-! ## Two runs -/

/-- The owner `ann` with a session that lists both accounts. -/
def annsSession : World :=
  { annsWorld with
    sessions := fun id =>
      if id = "s" then
        some ⟨"s", "ann", "ann", [annsAccount "u" "ann", annsAccount "v" "bob"], 1⟩
      else none }

/-- Make `v` the default account, then delete `u`. -/
def switchThenDelete (second : Bool) : Request :=
  if second then .deleteAccount (some annsContext) "u" else .setDefaultAccount (some annsContext) "v"

/-- One request after the other. -/
def switched : List (Entry Bool World Op Ans) × Conf Bool World Op Ans Resp :=
  runFaulty .sample (fun _ => false) (List.replicate 6 false ++ List.replicate 6 true)
    switchThenDelete annsSession

/-- A call of the run is as careful as it has to be. -/
def carefulEntry (e : Entry Bool World Op Ans) : Bool :=
  match e.event with
  | ⟨.createAccount _ _, _⟩ | ⟨.updateAccount _ _, _⟩ | ⟨.markDefault _ _, .error _⟩ => false
  | ⟨.deleteAccount owner id, _⟩ =>
    e.pre.accounts.rows.all fun r => !r.isOf .sample owner id || !r.acc.isDefault
  | ⟨.clearDefaults owner, _⟩ => e.pre.accounts.rows.any fun r => r.isOf .sample owner "v"
  | _ => true

theorem careful_switched : Careful .sample "ann" switchThenDelete switched.1 := by
  have hall : ∀ e ∈ switched.1, carefulEntry e = true := by decide
  refine ⟨?_, ?_, ?_, ?_, ?_⟩
  · intro x y a dek hsub _ _ hop _
    have hy := hall y (hsub.subset (by simp))
    obtain ⟨who, op, ans, pre, post⟩ := y
    cases hop
    cases hy
  · intro x y a dek hsub _ _ hop
    have hy := hall y (hsub.subset (by simp))
    obtain ⟨who, op, ans, pre, post⟩ := y
    cases hop
    cases hy
  · intro y hy owner id hev r hr _ hof
    have hcare := hall y hy
    rw [carefulEntry, hev] at hcare
    have hr := List.all_eq_true.mp hcare r hr
    rw [hof] at hr
    simpa using hr
  · intro y hy owner ctx id hev _ _ hreq
    have hcare := hall y hy
    rw [carefulEntry, hev] at hcare
    obtain ⟨r, hr, hof⟩ := List.any_eq_true.mp hcare
    have hid : id = "v" := by
      cases hwho : y.who with
      | false =>
        rw [hwho] at hreq
        cases hreq
        rfl
      | true =>
        rw [hwho] at hreq
        cases hreq
    exact ⟨r, hr, hid ▸ hof⟩
  · intro y hy owner id err hev
    have hcare := hall y hy
    rw [carefulEntry, hev] at hcare
    cases hcare

theorem one_default_switched : 0 < switched.2.state.accountCount "ann" ∧
    (NotSwitching .sample "ann" switched.1 → switched.2.state.defaultCount "ann" = 1) := by
  have h := one_default careful_switched (w := annsSession) (c := switched.2)
    (fun _ => by decide +kernel) (run_runFaulty _ _ _ _ _)
  have hpos := h.1 (.inl (by decide +kernel))
  exact ⟨hpos, h.2 hpos⟩

/-- Delete the default account. -/
def deleteDefault (_ : Unit) : Request := .deleteAccount (some annsContext) "u"

/-- The one request, without a fault. -/
def deleted : List (Entry Unit World Op Ans) × Conf Unit World Op Ans Resp :=
  runFaulty .sample (fun _ => false) (List.replicate 6 ()) deleteDefault annsSession

/-- **Deleting the default account leaves the owner without one**: `DeleteAccount` only sees to
it that the session's list has another account. -/
theorem default_lost :
    Run (sem .sample) (start .sample deleteDefault annsSession) deleted.1 deleted.2 ∧
      annsSession.defaultCount "ann" = 1 ∧ NotSwitching .sample "ann" deleted.1 ∧
      (∃ resp, deleted.2.procs () = .ret resp) ∧ deleted.2.state.accountCount "ann" = 1 ∧
      deleted.2.state.defaultCount "ann" = 0 := by
  have hdone : (deleted.2.procs ()).isRet = true := by decide +kernel
  refine ⟨run_runFaulty _ _ _ _ _, by decide +kernel, ?_, Prog.isRet_iff.mp hdone,
    by decide +kernel, by decide +kernel⟩
  intro i owner hs
  have hnone : ∀ v ∈ (proj () deleted.1).getLast?, v.1.writesAccounts = false := by decide +kernel
  have hlast := hnone _ hs
  cases hlast

end E2Mail.Backend
