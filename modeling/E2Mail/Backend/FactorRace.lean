import E2Mail.Backend.FactorGuard

/-!
# Stale writes of two-factor rows

`Verify2FA`, the re-encryption migration and `TwoFARegenerateBackupCodes` read a
whole two-factor row, and upsert it back some calls later. A `TwoFADisable` or a
`TwoFARegenerateBackupCodes` that takes effect in between is undone by the write.

* `Settled` — what an answered disable or regeneration promises from then on.
* `NoStaleSave` — neither takes effect between a request's lookup of the row and
  the write it bases on it.
* `settled_of_noStaleSave` — then every run keeps the promises.
-/

namespace E2Mail.Backend

open Lib

variable {ι : Type} [DecidableEq ι]

/-! ## The property -/

/-- The stored backup hashes of an owner column, if it has a row. -/
def World.storedHashes (w : World) (key : String) : Option (List String) :=
  (w.twoFA key).map TwoFA.backupHashes

/-- The call is the write of a `TwoFAEnable` that is answered with success. -/
def Enables (P : Params) (reqs : ι → FactorRequest) (key : String) (e : Entry ι World Op Ans) :
    Prop :=
  ∃ ctx body draw t, reqs e.who = .enable ctx body draw ∧ e.event = ⟨.saveTwoFA t, .ok ()⟩ ∧
    P.ownerID t.ownerEmail = key

/-- The call is the deletion of a `TwoFADisable` that is answered with success. -/
def Disables (P : Params) (reqs : ι → FactorRequest) (key : String) (e : Entry ι World Op Ans) :
    Prop :=
  ∃ ctx body owner, reqs e.who = .disable ctx body ∧ e.event = ⟨.deleteTwoFA owner, .ok ()⟩ ∧
    P.ownerID owner = key

/-- The call is the write of a `TwoFARegenerateBackupCodes` that is answered with success. -/
def Regenerates (P : Params) (reqs : ι → FactorRequest) (key : String)
    (e : Entry ι World Op Ans) : Prop :=
  ∃ ctx body draw t, reqs e.who = .regenerate ctx body draw ∧ e.event = ⟨.saveTwoFA t, .ok ()⟩ ∧
    P.ownerID t.ownerEmail = key

/-- The hashes of the backup codes a request draws. -/
def FactorRequest.drawn (P : Params) : FactorRequest → List String
  | enable _ _ draw | regenerate _ _ draw => (generateBackupCodes P draw).2
  | _ => []

/-- With the calls `past` behind it, the call accepts, for the owner column
`key`, a backup code with the hash `hash`: it is the write in which `Verify2FA`
takes the hash of its request's code out of the row it has looked up. The
request goes on to create a session whether or not the write succeeds. -/
def Accepts (P : Params) (reqs : ι → FactorRequest) (past : List (Entry ι World Op Ans))
    (key hash : String) (e : Entry ι World Op Ans) : Prop :=
  ∃ ip req owner t idx, reqs e.who = .other (.verify2FA ip (.ok req)) ∧
    Loaded owner t (proj e.who past) ∧ P.ownerID owner = key ∧
    validateBackupCode P (trimSpace req.code) t.backupHashes = some idx ∧
    P.hashCode (P.upper (trimSpace (trimSpace req.code))) = hash ∧ e.op = .saveTwoFA (t.without idx)

/-- What an answered disable or regeneration promises; `w` is the state reached. -/
structure Settled (P : Params) (reqs : ι → FactorRequest) (tr : List (Entry ι World Op Ans))
    (w : World) (key : String) : Prop where
  /-- after a disable there is no row until a later enable -/
  disabled : ∀ pre d post, tr = pre ++ d :: post → Disables P reqs key d →
    (∀ e ∈ post, ¬Enables P reqs key e) → w.twoFA key = none
  /-- after a regeneration no code is accepted but those drawn by it or later,
  hence none of the old set -/
  oldCodes : ∀ pre g mid e post hash, tr = pre ++ g :: mid ++ e :: post →
    Regenerates P reqs key g → (∀ x ∈ g :: mid, hash ∉ (reqs x.who).drawn P) →
    ¬Accepts P reqs (pre ++ g :: mid) key hash e
  /-- a code of the new set stays until it is used, or the set is given up -/
  newCodes : ∀ pre g post hash, tr = pre ++ g :: post → Regenerates P reqs key g →
    hash ∈ (reqs g.who).drawn P →
    (∀ a e b, post = a ++ e :: b → ¬Accepts P reqs (pre ++ g :: a) key hash e) →
    (∀ e ∈ post, ¬Enables P reqs key e ∧ ¬Disables P reqs key e ∧ ¬Regenerates P reqs key e) →
    ∃ l, w.storedHashes key = some l ∧ hash ∈ l

/-- No disable and no regeneration of the owner takes effect between a request's
lookup of the row and the write it bases on it. -/
def NoStaleSave (P : Params) (reqs : ι → FactorRequest) (tr : List (Entry ι World Op Ans))
    (key : String) : Prop :=
  ∀ a x b y c owner t, tr = a ++ x :: b ++ y :: c → x.who = y.who → x.op = .getTwoFA owner →
    P.ownerID owner = key → y.op = .saveTwoFA t → (∀ z ∈ b, z.who = y.who → z.op ≠ .getTwoFA owner) →
    ∀ z ∈ b, ¬Disables P reqs key z ∧ ¬Regenerates P reqs key z

/-! ## One write -/

section Writes

variable {P : Params} {reqs : ι → FactorRequest} {w : World} {tr : List (Entry ι World Op Ans)}
  {c : Conf ι World Op Ans TwoFAResp} {key : String}

/-- Two-factor rows are written and deleted by requests only. -/
def RequestsOnly (reqs : ι → FactorRequest) : Prop :=
  ∀ i, (∀ t, reqs i ≠ .other (.env (.saveTwoFA t))) ∧
    ∀ owner, reqs i ≠ .other (.env (.deleteTwoFA owner))

/-- The lookup `x` of a request shows the hashes `l`, and is its last before the
calls `pre` end. -/
structure LookedUp (P : Params) (pre : List (Entry ι World Op Ans)) (who : ι) (key : String)
    (owner : String) (a : List (Entry ι World Op Ans)) (x : Entry ι World Op Ans)
    (b : List (Entry ι World Op Ans)) (l : List String) : Prop where
  split : pre = a ++ x :: b
  caller : x.who = who
  lookup : x.op = .getTwoFA owner
  owned : P.ownerID owner = key
  last : ∀ z ∈ b, z.who = who → z.op ≠ .getTwoFA owner
  stored : x.pre.storedHashes key = some l

/-- A loaded row was stored when it was looked up. -/
theorem lookedUp_of_loaded (hrun : Run (sem P) (startFactor P reqs w) tr c)
    {pre post : List (Entry ι World Op Ans)} {e : Entry ι World Op Ans}
    (htr : tr = pre ++ e :: post) {owner : String} {t : TwoFA}
    (hload : Loaded owner t (proj e.who pre)) (hkey : P.ownerID owner = key) :
    t.ownerEmail = owner ∧ ∃ a x b, LookedUp P pre e.who key owner a x b t.backupHashes := by
  obtain ⟨h₁, h₂, hproj, hlast⟩ := hload
  obtain ⟨tr₁, tr₂, rfl, -, htr₂⟩ := proj_eq_append hproj
  obtain ⟨a, x, b, rfl, -, hwho, hev, hb⟩ := proj_eq_cons htr₂
  have hsem := hrun.sem_of_mem (e := x) (by simp [htr])
  obtain ⟨xwho, xop, xans, xpre, xpost⟩ := x
  cases hev
  obtain ⟨row, hrow, rfl⟩ := getTwoFA_row hsem
  refine ⟨rfl, tr₁ ++ a, _, b, by simp, hwho, rfl, hkey, ?_, ?_⟩
  · intro z hz hzwho
    refine hlast z.event ?_
    rw [← hb]
    exact mem_proj.mpr ⟨z, hz, hzwho, rfl⟩
  · show (xpre.twoFA key).map TwoFA.backupHashes = _
    rw [← hkey, hrow]
    rfl

theorem loaded_of_checked {ctx : FactorContext} {code : String} {t : TwoFA}
    {h : List (Event Op Ans)} (hchecked : Checked P ctx code t h) :
    Loaded (P.normalizeEmail ctx.email) t h := by
  refine ⟨[], [⟨.validateCode (decryptTwoFASecret P ctx.dek t) code, true⟩], hchecked, ?_⟩
  intro v hv
  obtain rfl := List.mem_singleton.mp hv
  rintro ⟨⟩

/-- An accepted code's hash was stored when the row was looked up. -/
theorem Accepts.lookedUp (hrun : Run (sem P) (startFactor P reqs w) tr c)
    {pre post : List (Entry ι World Op Ans)} {e : Entry ι World Op Ans} {hash : String}
    (htr : tr = pre ++ e :: post) (hacc : Accepts P reqs pre key hash e) :
    ∃ owner a x b l, LookedUp P pre e.who key owner a x b l ∧ hash ∈ l := by
  obtain ⟨ip, req, owner, t, idx, -, hload, hkey, hidx, hhash, -⟩ := hacc
  obtain ⟨-, a, x, b, hlook⟩ := lookedUp_of_loaded hrun htr hload hkey
  have hmem := validateBackupCode_eq_some hidx
  rw [hhash] at hmem
  exact ⟨owner, a, x, b, _, hlook, List.mem_of_getElem? hmem⟩

/-- **What a write of a row writes.** An enable writes its own codes; any other
write goes back to a lookup, and draws new codes, keeps the hashes, or takes out
the one of the code it accepts. -/
theorem save_cases (hrun : Run (sem P) (startFactor P reqs w) tr c) (henv : RequestsOnly reqs)
    {pre post : List (Entry ι World Op Ans)} {e : Entry ι World Op Ans}
    (htr : tr = pre ++ e :: post) {t : TwoFA} (hop : e.op = .saveTwoFA t)
    (hkey : P.ownerID t.ownerEmail = key) :
    ((∃ ctx body draw, reqs e.who = .enable ctx body draw) ∧
        t.backupHashes = (reqs e.who).drawn P) ∨
      ∃ owner a x b l, LookedUp P pre e.who key owner a x b l ∧
        (((∃ ctx body draw, reqs e.who = .regenerate ctx body draw) ∧
            t.backupHashes = (reqs e.who).drawn P) ∨
          t.backupHashes = l ∨
          ∃ hash idx, Accepts P reqs pre key hash e ∧ l[idx]? = some hash ∧
            t.backupHashes = l.eraseIdx idx) := by
  have hallowed := (factorRule_of_mem hrun htr).save t hop
  rcases hreq : reqs e.who with ⟨L, ctx, body, random⟩ | ⟨ctx, body, draw⟩ | ⟨ctx, body⟩ |
    ⟨ctx, body, draw⟩ | r
  · rw [hreq] at hallowed
    exact hallowed.elim
  · rw [hreq] at hallowed
    rcases ctx with _ | ctx
    · exact hallowed.elim
    rcases body with err | r
    · exact hallowed.elim
    exact .inl ⟨⟨_, _, _, rfl⟩, hallowed.2.1⟩
  · rw [hreq] at hallowed
    exact hallowed.elim
  · rw [hreq] at hallowed
    rcases ctx with _ | ctx
    · exact hallowed.elim
    rcases body with err | code
    · exact hallowed.elim
    obtain ⟨t₀, hchecked, rfl⟩ := hallowed
    have hload := loaded_of_checked hchecked
    have howner : t₀.ownerEmail = P.normalizeEmail ctx.email :=
      (lookedUp_of_loaded hrun htr hload rfl).1
    obtain ⟨-, a, x, b, hlook⟩ := lookedUp_of_loaded hrun htr hload (howner ▸ hkey)
    exact .inr ⟨_, a, x, b, _, hlook, .inl ⟨⟨_, _, _, rfl⟩, rfl⟩⟩
  · rw [hreq] at hallowed
    rcases hallowed with rfl | ⟨owner, t₀, hload, howner, hhashes⟩
    · exact absurd hreq ((henv e.who).1 t)
    have hemail : t₀.ownerEmail = owner := (lookedUp_of_loaded hrun htr hload rfl).1
    have hkey' : P.ownerID owner = key := by rw [← hemail, ← howner, hkey]
    obtain ⟨-, a, x, b, hlook⟩ := lookedUp_of_loaded hrun htr hload hkey'
    refine .inr ⟨owner, a, x, b, _, hlook, .inr ?_⟩
    rcases hhashes with hsame | ⟨ip, req, idx, rfl, hidx, rfl⟩
    · exact .inl hsame
    · exact .inr ⟨_, idx, ⟨ip, req, owner, t₀, idx, hreq, hload, hkey', hidx, rfl, hop⟩,
        validateBackupCode_eq_some hidx, rfl⟩

/-- A deletion is a disable's. -/
theorem disables_of_delete (hrun : Run (sem P) (startFactor P reqs w) tr c)
    (henv : RequestsOnly reqs) {pre post : List (Entry ι World Op Ans)}
    {e : Entry ι World Op Ans} (htr : tr = pre ++ e :: post) {owner : String}
    (hev : e.event = ⟨.deleteTwoFA owner, .ok ()⟩) (hkey : P.ownerID owner = key) :
    Disables P reqs key e := by
  have hallowed := (factorRule_of_mem hrun htr).delete owner (congrArg Sigma.fst hev)
  rcases hreq : reqs e.who with ⟨L, ctx, body, random⟩ | ⟨ctx, body, draw⟩ | ⟨ctx, body⟩ |
    ⟨ctx, body, draw⟩ | r
  · rw [hreq] at hallowed
    exact hallowed.elim
  · rw [hreq] at hallowed
    exact hallowed.elim
  · exact ⟨ctx, body, owner, hreq, hev, hkey⟩
  · rw [hreq] at hallowed
    exact hallowed.elim
  · rw [hreq] at hallowed
    obtain rfl : r = .env (.deleteTwoFA owner) := hallowed
    exact absurd hreq ((henv e.who).2 owner)

end Writes

/-! ## After a disable or a regeneration -/

section After

variable {P : Params} {reqs : ι → FactorRequest} {w : World} {tr : List (Entry ι World Op Ans)}
  {c : Conf ι World Op Ans TwoFAResp} {key : String}

/-- The call takes the row away or draws it anew. -/
def Resets (P : Params) (reqs : ι → FactorRequest) (key : String) (e : Entry ι World Op Ans) :
    Prop :=
  Disables P reqs key e ∨ Regenerates P reqs key e

omit [DecidableEq ι] in
theorem Resets.op_ne {d : Entry ι World Op Ans} (h : Resets P reqs key d) (owner : String) :
    d.op ≠ .getTwoFA owner := by
  intro hop
  rcases h with ⟨_, _, owner', -, hev, -⟩ | ⟨_, _, _, t, -, hev, -⟩ <;>
  · have hfst : d.op = _ := congrArg Sigma.fst hev
    rw [hop] at hfst
    cases hfst

/-- What a call after the reset `d`, with the calls `a` in between, does to the
stored hashes. A write that goes back to a lookup goes back to one after `d`. -/
inductive StepAfter (P : Params) (reqs : ι → FactorRequest) (key : String)
    (past a : List (Entry ι World Op Ans)) (y : Entry ι World Op Ans) : Prop where
  | kept (h : y.post.storedHashes key = y.pre.storedHashes key)
  | disabled (hy : Disables P reqs key y) (h : y.post.storedHashes key = none)
  | enabled (hy : Enables P reqs key y) (h : y.post.storedHashes key = some ((reqs y.who).drawn P))
  | regenerated (hy : Regenerates P reqs key y) (x : Entry ι World Op Ans) (hx : x ∈ a)
      (l : List String) (hl : x.pre.storedHashes key = some l)
      (h : y.post.storedHashes key = some ((reqs y.who).drawn P))
  | copied (x : Entry ι World Op Ans) (hx : x ∈ a) (l : List String)
      (hl : x.pre.storedHashes key = some l) (h : y.post.storedHashes key = some l)
  | accepted (x : Entry ι World Op Ans) (hx : x ∈ a) (l : List String)
      (hl : x.pre.storedHashes key = some l) (hash : String) (idx : Nat)
      (hy : Accepts P reqs past key hash y) (hidx : l[idx]? = some hash)
      (h : y.post.storedHashes key = some (l.eraseIdx idx))

theorem storedHashes_of_twoFA_eq {w w' : World} (h : w'.twoFA key = w.twoFA key) :
    w'.storedHashes key = w.storedHashes key := by
  rw [World.storedHashes, World.storedHashes, h]

omit [DecidableEq ι] in
/-- **A write after a reset goes back to a lookup after the reset.** -/
theorem lookup_after (hstale : NoStaleSave P reqs tr key)
    {pre a b : List (Entry ι World Op Ans)} {d y : Entry ι World Op Ans}
    (htr : tr = (pre ++ d :: a) ++ y :: b) (hd : Resets P reqs key d) {t : TwoFA}
    (hop : y.op = .saveTwoFA t) {owner : String} {a' b' : List (Entry ι World Op Ans)}
    {x : Entry ι World Op Ans} {l : List String}
    (hlook : LookedUp P (pre ++ d :: a) y.who key owner a' x b' l) : x ∈ a := by
  have hquiet := hstale a' x b' y b owner t (by rw [htr, hlook.split]) hlook.caller hlook.lookup
    hlook.owned hop hlook.last
  have hsplit := hlook.split
  rcases List.append_eq_append_iff.mp hsplit with ⟨as, -, htail⟩ | ⟨bs, -, htail⟩
  · rcases as with _ | ⟨z, as⟩
    · obtain ⟨rfl, -⟩ := List.cons.inj htail
      exact absurd hlook.lookup (hd.op_ne owner)
    · obtain ⟨-, rfl⟩ := List.cons.inj htail
      simp
  · rcases bs with _ | ⟨z, bs⟩
    · obtain ⟨rfl, -⟩ := List.cons.inj htail
      exact absurd hlook.lookup (hd.op_ne owner)
    · -- the reset would lie between the lookup and the write
      obtain ⟨-, rfl⟩ := List.cons.inj htail
      have hno := hquiet d (by simp)
      exact (hd.elim hno.1 hno.2).elim

/-- **What a call does after a reset.** -/
theorem stepAfter (hrun : Run (sem P) (startFactor P reqs w) tr c) (henv : RequestsOnly reqs)
    (hstale : NoStaleSave P reqs tr key) {pre a b : List (Entry ι World Op Ans)}
    {d y : Entry ι World Op Ans} (htr : tr = (pre ++ d :: a) ++ y :: b)
    (hd : Resets P reqs key d) : StepAfter P reqs key (pre ++ d :: a) a y := by
  have hsem := hrun.sem_of_mem (e := y) (by simp [htr])
  rcases twoFA_cases (v := y.event) key hsem with ⟨t, hev, hkey⟩ | ⟨owner, hev, hkey⟩ | hsame
  · have hop : y.op = .saveTwoFA t := congrArg Sigma.fst hev
    have hpost : y.post.storedHashes key = some t.backupHashes := by
      obtain ⟨who, op, ans, ypre, ypost⟩ := y
      cases hev
      rw [World.storedHashes, saveTwoFA_row hsem, hkey, Function.update_self]
      rfl
    rcases save_cases hrun henv htr hop hkey with ⟨⟨ctx, body, draw, hreq⟩, hdrawn⟩ |
      ⟨owner, a', x, b', l, hlook, hhashes⟩
    · exact .enabled ⟨ctx, body, draw, t, hreq, hev, hkey⟩ (hdrawn ▸ hpost)
    · have hx := lookup_after hstale htr hd hop hlook
      rcases hhashes with ⟨⟨ctx, body, draw, hreq⟩, hdrawn⟩ | hcopy | ⟨hash, idx, hacc, hidx, hcopy⟩
      · exact .regenerated ⟨ctx, body, draw, t, hreq, hev, hkey⟩ x hx l hlook.stored
          (hdrawn ▸ hpost)
      · exact .copied x hx l hlook.stored (hcopy ▸ hpost)
      · exact .accepted x hx l hlook.stored hash idx hacc hidx (hcopy ▸ hpost)
  · have hpost : y.post.storedHashes key = none := by
      obtain ⟨who, op, ans, ypre, ypost⟩ := y
      cases hev
      rw [World.storedHashes, deleteTwoFA_row hsem, hkey, Function.update_self]
      rfl
    exact .disabled (disables_of_delete hrun henv htr hev hkey) hpost
  · exact .kept (storedHashes_of_twoFA_eq hsame)

/-- After a disable there is no row until a later enable. -/
theorem noRow_after (hrun : Run (sem P) (startFactor P reqs w) tr c) (henv : RequestsOnly reqs)
    (hstale : NoStaleSave P reqs tr key) {pre post : List (Entry ι World Op Ans)}
    {d : Entry ι World Op Ans} (htr : tr = pre ++ d :: post) (hd : Disables P reqs key d)
    (hno : ∀ e ∈ post, ¬Enables P reqs key e) : c.state.twoFA key = none := by
  have h0 : d.post.storedHashes key = none := by
    have hsem := hrun.sem_of_mem (e := d) (by simp [htr])
    obtain ⟨ctx, body, owner, -, hev, hkey⟩ := hd
    obtain ⟨who, op, ans, dpre, dpost⟩ := d
    cases hev
    rw [World.storedHashes, deleteTwoFA_row hsem, hkey, Function.update_self]
    rfl
  have hend := (hrun.holds_after (I := fun w => w.storedHashes key = none) htr h0
    fun a y b hpost hbefore hy => ?_).1
  · exact Option.map_eq_none_iff.mp hend
  -- a lookup since the disable has shown no row
  have hlookup : ∀ x ∈ a, ∀ l, x.pre.storedHashes key ≠ some l := fun x hx l hl => by
    rw [hbefore x hx] at hl
    cases hl
  have hcut : tr = (pre ++ d :: a) ++ y :: b := by rw [htr, hpost, List.append_assoc, List.cons_append]
  rcases stepAfter hrun henv hstale hcut (.inl hd) with h | ⟨-, h⟩ | ⟨he, -⟩ |
    ⟨-, x, hx, l, hl, -⟩ | ⟨x, hx, l, hl, -⟩ | ⟨x, hx, l, hl, -⟩
  · exact h.trans hy
  · exact h
  · exact absurd he (hno y (by simp [hpost]))
  · exact absurd hl (hlookup x hx l)
  · exact absurd hl (hlookup x hx l)
  · exact absurd hl (hlookup x hx l)

/-- The write of a regeneration stores the codes it draws. -/
theorem storedHashes_of_regenerates (hrun : Run (sem P) (startFactor P reqs w) tr c)
    {pre post : List (Entry ι World Op Ans)}
    {g : Entry ι World Op Ans} (htr : tr = pre ++ g :: post) (hg : Regenerates P reqs key g) :
    g.post.storedHashes key = some ((reqs g.who).drawn P) := by
  have hsem := hrun.sem_of_mem (e := g) (by simp [htr])
  obtain ⟨ctx, body, draw, t, hreq, hev, hkey⟩ := hg
  have hallowed := (factorRule_of_mem hrun htr).save t (congrArg Sigma.fst hev)
  rw [hreq] at hallowed
  have hdrawn : t.backupHashes = (reqs g.who).drawn P := by
    rw [hreq]
    rcases ctx with _ | ctx
    · exact hallowed.elim
    rcases body with err | code
    · exact hallowed.elim
    obtain ⟨t₀, -, rfl⟩ := hallowed
    rfl
  obtain ⟨who, op, ans, gpre, gpost⟩ := g
  cases hev
  rw [World.storedHashes, saveTwoFA_row hsem, hkey, Function.update_self, ← hdrawn]
  rfl

/-- From a regeneration on, only codes drawn by it or later are stored. -/
theorem not_stored_after (hrun : Run (sem P) (startFactor P reqs w) tr c)
    (henv : RequestsOnly reqs) (hstale : NoStaleSave P reqs tr key)
    {pre mid post : List (Entry ι World Op Ans)} {g e : Entry ι World Op Ans} {hash : String}
    (htr : tr = pre ++ g :: mid ++ e :: post) (hg : Regenerates P reqs key g)
    (hdrawn : ∀ x ∈ g :: mid, hash ∉ (reqs x.who).drawn P) :
    ∀ x ∈ mid, ∀ l, x.pre.storedHashes key = some l → hash ∉ l := by
  have htr' : tr = pre ++ g :: (mid ++ e :: post) := by simp [htr]
  obtain ⟨c₁, hmid, -⟩ := hrun.split htr
  have h0 : ∀ l, g.post.storedHashes key = some l → hash ∉ l := by
    intro l hl
    rw [storedHashes_of_regenerates hrun htr' hg] at hl
    obtain rfl := Option.some.inj hl
    exact hdrawn g List.mem_cons_self
  refine (hmid.holds_after (I := fun w => ∀ l, w.storedHashes key = some l → hash ∉ l) rfl h0
    fun a y b hsplit hbefore hy l hl => ?_).2
  have hcut : tr = (pre ++ g :: a) ++ y :: (b ++ e :: post) := by rw [htr, hsplit]; simp
  rcases stepAfter hrun henv hstale hcut (.inr hg) with h | ⟨-, h⟩ | ⟨-, h⟩ |
    ⟨-, x, hx, l', hl', h⟩ | ⟨x, hx, l', hl', h⟩ | ⟨x, hx, l', hl', hash', idx, -, -, h⟩
  · exact hy l (h ▸ hl)
  · rw [h] at hl
    cases hl
  · rw [h] at hl
    obtain rfl := Option.some.inj hl
    exact hdrawn y (by simp [hsplit])
  · rw [h] at hl
    obtain rfl := Option.some.inj hl
    exact hdrawn y (by simp [hsplit])
  · rw [h] at hl
    obtain rfl := Option.some.inj hl
    exact hbefore x hx l' hl'
  · rw [h] at hl
    obtain rfl := Option.some.inj hl
    exact fun hmem => hbefore x hx l' hl' (List.mem_of_mem_eraseIdx hmem)

theorem mem_eraseIdx_of_ne {l : List String} {idx : Nat} {a b : String} (ha : a ∈ l)
    (hidx : l[idx]? = some b) (hne : a ≠ b) : a ∈ l.eraseIdx idx := by
  obtain ⟨k, hk⟩ := List.getElem?_of_mem ha
  refine List.mem_eraseIdx_iff_getElem?.mpr ⟨k, ?_, hk⟩
  rintro rfl
  exact hne (Option.some.inj (hk.symm.trans hidx))

/-- A code of a regenerated set stays stored until it is used or the set is given up. -/
theorem stored_after (hrun : Run (sem P) (startFactor P reqs w) tr c) (henv : RequestsOnly reqs)
    (hstale : NoStaleSave P reqs tr key) {pre post : List (Entry ι World Op Ans)}
    {g : Entry ι World Op Ans} {hash : String} (htr : tr = pre ++ g :: post)
    (hg : Regenerates P reqs key g) (hdrawn : hash ∈ (reqs g.who).drawn P)
    (hunused : ∀ a e b, post = a ++ e :: b → ¬Accepts P reqs (pre ++ g :: a) key hash e)
    (hno : ∀ e ∈ post, ¬Enables P reqs key e ∧ ¬Disables P reqs key e ∧ ¬Regenerates P reqs key e) :
    ∃ l, c.state.storedHashes key = some l ∧ hash ∈ l := by
  have h0 : ∃ l, g.post.storedHashes key = some l ∧ hash ∈ l :=
    ⟨_, storedHashes_of_regenerates hrun htr hg, hdrawn⟩
  refine (hrun.holds_after (I := fun w => ∃ l, w.storedHashes key = some l ∧ hash ∈ l) htr h0
    fun a y b hpost hbefore hy => ?_).1
  have hnot := hno y (by simp [hpost])
  have hcut : tr = (pre ++ g :: a) ++ y :: b := by rw [htr, hpost, List.append_assoc, List.cons_append]
  rcases stepAfter hrun henv hstale hcut (.inr hg) with
    h | ⟨hdis, -⟩ | ⟨hen, -⟩ | ⟨hreg, -⟩ | ⟨x, hx, l, hl, h⟩ | ⟨x, hx, l, hl, hash', idx, hacc, hidx, h⟩
  · rwa [h]
  · exact absurd hdis hnot.2.1
  · exact absurd hen hnot.1
  · exact absurd hreg hnot.2.2
  · obtain ⟨l', hl', hmem⟩ := hbefore x hx
    obtain rfl := Option.some.inj (hl.symm.trans hl')
    exact ⟨l, h, hmem⟩
  · obtain ⟨l', hl', hmem⟩ := hbefore x hx
    obtain rfl := Option.some.inj (hl.symm.trans hl')
    refine ⟨_, h, mem_eraseIdx_of_ne hmem hidx ?_⟩
    rintro rfl
    exact hunused a y b hpost hacc

/-- **Answered disables and regenerations stand**, in every interleaving in which
neither takes effect between a request's lookup of the row and its write. -/
theorem settled_of_noStaleSave (hrun : Run (sem P) (startFactor P reqs w) tr c)
    (henv : RequestsOnly reqs) (hstale : NoStaleSave P reqs tr key) :
    Settled P reqs tr c.state key := by
  constructor
  · intro pre d post htr hd hno
    exact noRow_after hrun henv hstale htr hd hno
  · intro pre g mid e post hash htr hg hdrawn hacc
    -- the hash was stored when the accepting request looked the row up
    obtain ⟨owner, a, x, b, l, hlook, hmem⟩ := hacc.lookedUp hrun htr
    obtain ⟨ip, req, owner', t, idx, -, -, -, -, -, hop⟩ := hacc
    have hx := lookup_after hstale htr (.inr hg) hop hlook
    exact not_stored_after hrun henv hstale htr hg hdrawn x hx l hlook.stored hmem
  · intro pre g post hash htr hg hdrawn hunused hno
    exact stored_after hrun henv hstale htr hg hdrawn hunused hno

end After

/-! ## Runs -/

/-- The enrolled owner answers a challenge with a backup code, and disables the
second factor. -/
def giveUp (second : Bool) : FactorRequest :=
  if second then .disable (some stolenSession) (.ok ⟨"", "123456"⟩) else .other (sameCode false)

/-- The two requests of `giveUp`, one after the other. -/
def giveUpRun : List (Entry Bool World Op Ans) × Conf Bool World Op Ans TwoFAResp :=
  runFactor .sample (fun _ => false) (List.replicate 30 false ++ List.replicate 5 true) giveUp
    challenged

/-- The disable runs between the lookup of the other request and its write. -/
def undoneRun : List (Entry Bool World Op Ans) × Conf Bool World Op Ans TwoFAResp :=
  runFactor .sample (fun _ => false)
    (List.replicate 4 false ++ List.replicate 5 true ++ List.replicate 30 false) giveUp challenged

theorem requestsOnly_giveUp : RequestsOnly giveUp := by
  intro second
  cases second with
  | false =>
    refine ⟨fun t h => ?_, fun owner h => ?_⟩
    · cases FactorRequest.other.inj h
    · cases FactorRequest.other.inj h
  | true =>
    refine ⟨fun t h => ?_, fun owner h => ?_⟩
    · cases h
    · cases h

/-- The request that writes in `giveUpRun` is done before the disable starts. -/
theorem noStaleSave_giveUpRun : NoStaleSave .sample giveUp giveUpRun.1 "a@x" := by
  intro a x b y c owner t htr _ _ _ hop _ z hz
  have hsave : ∀ y ∈ giveUpRun.1, y.op.marked = true → y.who = false := by decide
  have hpair : giveUpRun.1.Pairwise fun z y => y.who = false → z.who = false := by decide
  have hy : y.who = false := hsave y (by rw [htr]; simp) (by rw [hop]; rfl)
  rw [htr] at hpair
  have hwho : z.who = false :=
    (List.pairwise_append.mp hpair).2.2 z (by simp [hz]) y List.mem_cons_self hy
  constructor
  · rintro ⟨ctx, body, owner', hreq, -⟩
    rw [hwho] at hreq
    cases hreq
  · rintro ⟨ctx, body, draw, t', hreq, -⟩
    rw [hwho] at hreq
    cases hreq

/-- The owner whose row a call has deleted. -/
def deletedOwner : Event Op Ans → Option String
  | ⟨.deleteTwoFA owner, .ok ()⟩ => some owner
  | _ => none

theorem deletedOwner_eq_some {v : Event Op Ans} {owner : String}
    (h : deletedOwner v = some owner) : v = ⟨.deleteTwoFA owner, .ok ()⟩ := by
  obtain ⟨o, r⟩ := v
  cases o with
  | deleteTwoFA owner' =>
    rcases r with e | ⟨⟩
    · cases h
    · obtain rfl := Option.some.inj h
      rfl
  | _ => cases h

/-- The rule on a run in which a disable is answered. -/
theorem settled_giveUpRun :
    (∃ e ∈ giveUpRun.1, deletedOwner e.event = some "a@x") ∧
      Settled .sample giveUp giveUpRun.1 giveUpRun.2.state "a@x" :=
  ⟨by decide +kernel, settled_of_noStaleSave (run_runFactor _ _ _ _ _) requestsOnly_giveUp
    noStaleSave_giveUpRun⟩

/-- The row is stored again at the end. -/
theorem undoneRun_stored : (undoneRun.2.state.twoFA "a@x").isSome = true := by decide

/-- **A disable is undone** by the stale write of a request that had looked the row up. -/
theorem disable_undone :
    Run (sem .sample) (startFactor .sample giveUp challenged) undoneRun.1 undoneRun.2 ∧
      RequestsOnly giveUp ∧ ¬Settled .sample giveUp undoneRun.1 undoneRun.2.state "a@x" := by
  refine ⟨run_runFactor _ _ _ _ _, requestsOnly_giveUp, fun hsettled => ?_⟩
  have hex : ∃ d ∈ undoneRun.1, d.who = true ∧ deletedOwner d.event = some "a@x" := by
    decide +kernel
  obtain ⟨d, hd, hwho, hdel⟩ := hex
  obtain ⟨pre, post, htr⟩ := List.append_of_mem hd
  have hdisables : Disables .sample giveUp "a@x" d :=
    ⟨_, _, "a@x", by rw [hwho]; rfl, deletedOwner_eq_some hdel, by decide +kernel⟩
  have hnone := hsettled.disabled pre d post htr hdisables ?_
  · have hsome := undoneRun_stored
    rw [hnone] at hsome
    cases hsome
  · rintro e - ⟨ctx, body, draw, t, hreq, -⟩
    rcases hwho' : e.who with _ | _
    · rw [hwho'] at hreq
      cases hreq
    · rw [hwho'] at hreq
      cases hreq

end E2Mail.Backend
