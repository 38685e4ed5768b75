import E2Mail.Backend.PasskeyPaths

/-!
# An owner's passkeys

What the table of passkeys is for: every owner has a shelf of passkeys, which
only the owner's own calls change. The shelf is an ordered list of entries and
four acts on it; the table holds the rows of all owners under one primary key.

* `ShelfStep` — everything a call can do to the table, and nothing else;
* `shelf_step` — on the shelf of one owner, a call of the owner is its act, and
  a call of another owner is nothing;
* `list_replays` — what `ListWebAuthnCredentials` answers in any run is the
  replay of the owner's own acts before it, oldest passkey first.
-/

namespace E2Mail.Backend

open Lib

variable {P : Params} {R : Registration}

/-! ## The shelf -/

/-- An entry of a shelf. -/
structure Shelved where
  credentialID : String
  credentialJSON : String
  label : Label
  deriving DecidableEq

/-- The entry with the owner's spelling of the address, as a row. -/
def Shelved.passkey (owner : String) (x : Shelved) : Passkey where
  ownerEmail := owner
  credentialID := x.credentialID
  name := x.label.name
  credentialJSON := x.credentialJSON
  createdAt := x.label.createdAt
  lastUsedAt := x.label.lastUsedAt

/-- What an owner can do to the shelf. -/
inductive ShelfAct where
  | put (c : WebAuthnCredential) (name : List UInt8)
  | renew (owner credID credJSON : String)
  | rename (owner credID : String) (name : List UInt8)
  | drop (owner credID : String)

/-- The owner an act names. -/
def ShelfAct.owner : ShelfAct → String
  | put c _ => c.ownerEmail
  | renew owner _ _ | rename owner _ _ | drop owner _ => owner

/-- What an act does, at a time. -/
def ShelfAct.apply (now : Nat) : ShelfAct → List Shelved → List Shelved
  | put c name, shelf => shelf ++ [⟨c.credentialID, c.credentialJSON, ⟨name, now, now⟩⟩]
  | renew _ credID credJSON, shelf => shelf.map fun x =>
    if x.credentialID = credID then
      { x with credentialJSON := credJSON, label := { x.label with lastUsedAt := now } }
    else x
  | rename _ credID name, shelf => shelf.map fun x =>
    if x.credentialID = credID then { x with label := { x.label with name := name } } else x
  | drop _ credID, shelf => shelf.filter fun x => x.credentialID ≠ credID

/-- The act of a call that succeeded. -/
def shelfAct : Event SiteOp SiteAns → Option ShelfAct
  | ⟨.inr (.createPasskey c name), .ok _⟩ => some (.put c name)
  | ⟨.inl (.updateWebAuthn owner credID credJSON), .ok ()⟩ => some (.renew owner credID credJSON)
  | ⟨.inr (.renamePasskey owner credID name), .ok true⟩ => some (.rename owner credID name)
  | ⟨.inr (.deletePasskey owner credID), .ok _⟩ => some (.drop owner credID)
  | _ => none

theorem event_of_put {v : Event SiteOp SiteAns} {c : WebAuthnCredential} {name : List UInt8}
    (h : shelfAct v = some (.put c name)) : ∃ p, v = ⟨.inr (.createPasskey c name), .ok p⟩ := by
  rcases v with ⟨o | o, r⟩
  · cases o with
    | updateWebAuthn owner credID credJSON => rcases r with e | ⟨⟩ <;> cases h
    | _ => cases h
  · cases o with
    | createPasskey c' name' =>
      rcases r with e | p
      · cases h
      · cases h
        exact ⟨p, rfl⟩
    | renamePasskey owner credID name' => rcases r with e | _ | _ <;> cases h
    | deletePasskey owner credID => rcases r with e | n <;> cases h
    | _ => cases h

theorem op_of_renew {v : Event SiteOp SiteAns} {owner credID credJSON : String}
    (h : shelfAct v = some (.renew owner credID credJSON)) :
    v.1 = .inl (.updateWebAuthn owner credID credJSON) := by
  rcases v with ⟨o | o, r⟩
  · cases o with
    | updateWebAuthn owner' credID' credJSON' =>
      rcases r with e | ⟨⟩
      · cases h
      · cases h
        rfl
    | _ => cases h
  · cases o with
    | createPasskey c name => rcases r with e | p <;> cases h
    | renamePasskey owner' credID' name => rcases r with e | _ | _ <;> cases h
    | deletePasskey owner' credID' => rcases r with e | n <;> cases h
    | _ => cases h

/-- What a call's act means to the shelf of an owner column: another owner's act is nothing. -/
def ownStep (P : Params) (key : String) (now : Nat) : Option ShelfAct → List Shelved → List Shelved
  | none, shelf => shelf
  | some act, shelf => if P.ownerID act.owner = key then act.apply now shelf else shelf

/-- A stored row with its label. -/
def Site.shelved (s : Site) (c : WebAuthnCredential) : Shelved :=
  ⟨c.credentialID, c.credentialJSON, s.labels c.credentialID⟩

/-- The rows of an owner column, with their labels. -/
def Site.shelf (P : Params) (key : String) (s : Site) : List Shelved :=
  (s.world.passkeys.rows.filter fun c => P.ownerID c.ownerEmail = key).map s.shelved

/-! ## What a call does to the table -/

/-- What an act does to the table and its labels; without an act, nothing. -/
def ShelfStep (P : Params) (s s' : Site) : Option ShelfAct → Prop
  | none => s'.world.passkeys = s.world.passkeys ∧ s'.labels = s.labels
  | some (.put c name) => s.world.passkeys.insert? c = some s'.world.passkeys ∧
    s'.labels = Function.update s.labels c.credentialID ⟨name, s.world.now, s.world.now⟩
  | some (.renew owner credID credJSON) =>
    s'.world.passkeys = (s.world.updateWebAuthnCredential P owner credID credJSON).passkeys ∧
    s'.labels = s.touched P (.updateWebAuthn owner credID credJSON) (.ok ())
  | some (.rename owner credID name) => s'.world.passkeys = s.world.passkeys ∧
    s.world.passkeys.rows.any (·.isOf P owner credID) = true ∧
    s'.labels = Function.update s.labels credID { s.labels credID with name := name }
  | some (.drop owner credID) =>
    s'.world.passkeys = s.world.passkeys.delete (·.isOf P owner credID) ∧ s'.labels = s.labels

theorem shelfStep_createPasskey (c : WebAuthnCredential) (name : List UInt8) (s : Site) :
    ShelfStep P s (s.createPasskey c name).2
      (shelfAct ⟨.inr (.createPasskey c name), (s.createPasskey c name).1⟩) := by
  rw [Site.createPasskey, World.createWebAuthnCredential]
  split
  · rename_i h
    split at h
    · cases h
      exact ⟨rfl, rfl⟩
    · split at h
      · cases h
        exact ⟨rfl, rfl⟩
      · cases h
  · rename_i h
    split at h
    · cases h
    · split at h
      · cases h
      · rename_i t ht
        cases h
        exact ⟨ht, rfl⟩

theorem shelfStep_key {o : KeyOp} {s s' : Site} {r : KeyAns o} (h : siteSem P R (.inr o) s r s') :
    ShelfStep P s s' (shelfAct ⟨.inr o, r⟩) := by
  obtain ⟨-, h | ⟨e, he, rfl⟩⟩ := h
  · obtain ⟨rfl, rfl⟩ := Prod.mk.inj h
    cases o with
    | createPasskey c name => exact shelfStep_createPasskey c name s
    | renamePasskey owner credID name =>
      simp only [Site.renamePasskey]
      split
      · rename_i hany
        exact ⟨rfl, hany, rfl⟩
      · exact ⟨rfl, rfl⟩
    | deletePasskey owner credID => exact ⟨rfl, rfl⟩
    | beginRegistration user =>
      refine ⟨?_, rfl⟩
      change (s.world.beginRegistration P R user).2.passkeys = s.world.passkeys
      rw [World.beginRegistration]
      split <;> rfl
    | finishRegistration user id response =>
      refine ⟨?_, rfl⟩
      change (s.world.finishRegistration R user id response).2.passkeys = s.world.passkeys
      rw [World.finishRegistration]
      split
      · rfl
      · split
        · rfl
        · split <;> rfl
    | listPasskeys owner => exact ⟨rfl, rfl⟩
    | sweepCeremonies => exact ⟨rfl, rfl⟩
  · cases o with
    | createPasskey c name =>
      cases he
      exact ⟨rfl, rfl⟩
    | renamePasskey owner credID name =>
      cases he
      exact ⟨rfl, rfl⟩
    | deletePasskey owner credID =>
      cases he
      exact ⟨rfl, rfl⟩
    | listPasskeys owner => exact ⟨rfl, rfl⟩
    | _ => cases he

theorem shelfStep_backend {o : Op} {s s' : Site} {r : Ans o} (h : siteSem P R (.inl o) s r s')
    (ho : SiteOp.byHand (.inl o) = false) : ShelfStep P s s' (shelfAct ⟨.inl o, r⟩) := by
  obtain ⟨hsem, hlabels⟩ := h
  have hframe := sem_frame hsem
  by_cases hpart : o.part = .passkeys
  · rcases sem_cases hsem with ⟨rfl, hw⟩ | ⟨e, he, hw⟩
    · cases o with
      | updateWebAuthn owner credID credJSON => exact ⟨congrArg World.passkeys hw, hlabels⟩
      | countWebAuthn owner => exact ⟨congrArg World.passkeys hw, hlabels⟩
      | listWebAuthn owner => exact ⟨congrArg World.passkeys hw, hlabels⟩
      | createWebAuthn c => cases ho
      | deleteWebAuthn owner credID => cases ho
      | _ => cases hpart
    · cases o with
      | updateWebAuthn owner credID credJSON =>
        cases he
        exact ⟨congrArg World.passkeys hw, hlabels⟩
      | countWebAuthn owner => exact ⟨congrArg World.passkeys hw, hlabels⟩
      | listWebAuthn owner => exact ⟨congrArg World.passkeys hw, hlabels⟩
      | createWebAuthn c => cases ho
      | deleteWebAuthn owner credID => cases ho
      | _ => cases hpart
  · have hsame := hframe.passkeys hpart
    cases o with
    | updateWebAuthn owner credID credJSON => exact absurd rfl hpart
    | _ => exact ⟨hsame, hlabels⟩

/-- **Everything a call can do to the table of passkeys**, of either signature. -/
theorem shelfStep {o : SiteOp} {s s' : Site} {r : SiteAns o} (h : siteSem P R o s r s')
    (ho : SiteOp.byHand o = false) : ShelfStep P s s' (shelfAct ⟨o, r⟩) := by
  cases o with
  | inl o => exact shelfStep_backend h ho
  | inr o => exact shelfStep_key h

/-- A row after an act was there before, is the one that was put, or is the renewal of one. -/
theorem row_cases {s s' : Site} {act : Option ShelfAct} (h : ShelfStep P s s' act)
    {row : WebAuthnCredential} (hrow : row ∈ s'.world.passkeys.rows) :
    row ∈ s.world.passkeys.rows ∨ (∃ name, act = some (.put row name)) ∨
      ∃ owner credID credJSON, act = some (.renew owner credID credJSON) ∧
        ∃ d ∈ s.world.passkeys.rows, d.isOf P owner credID = true ∧
          row = { d with credentialJSON := credJSON } := by
  rcases act with _ | ⟨c, name⟩ | ⟨owner, credID, credJSON⟩ | ⟨owner, credID, name⟩ | ⟨owner, credID⟩
  · rw [h.1] at hrow
    exact .inl hrow
  · rw [(Table.insert?_eq_some.mp h.1).2] at hrow
    rcases List.mem_append.mp hrow with hrow | hrow
    · exact .inl hrow
    · obtain rfl := List.mem_singleton.mp hrow
      exact .inr (.inl ⟨name, rfl⟩)
  · rw [h.1, World.updateWebAuthnCredential, Table.rows_update] at hrow
    obtain ⟨d, hd, rfl⟩ := List.mem_map.mp hrow
    by_cases hof : d.isOf P owner credID = true
    · rw [if_pos hof]
      exact .inr (.inr ⟨owner, credID, credJSON, rfl, d, hd, hof, rfl⟩)
    · rw [if_neg hof]
      exact .inl hd
  · rw [h.1] at hrow
    exact .inl hrow
  · rw [h.1] at hrow
    exact .inl (Table.mem_delete.mp hrow).1

/-! ## One owner's shelf -/

section Shelf

variable {s s' : Site} {key : String} {c : WebAuthnCredential}

theorem WebAuthnCredential.isOf_eq_true {owner credID : String} :
    c.isOf P owner credID = true ↔ P.ownerID c.ownerEmail = P.ownerID owner ∧ c.credentialID = credID := by
  rw [WebAuthnCredential.isOf, decide_eq_true_eq]

/-- The rows of an owner column. -/
theorem mem_ownRows : c ∈ s.world.passkeys.rows.filter (fun c => P.ownerID c.ownerEmail = key) ↔
    c ∈ s.world.passkeys.rows ∧ P.ownerID c.ownerEmail = key := by
  rw [List.mem_filter, decide_eq_true_eq]

/-- A row of one owner has not the id of another owner's row. -/
theorem ne_of_otherOwner {owner credID : String} (hc : c ∈ s.world.passkeys.rows)
    (hany : s.world.passkeys.rows.any (·.isOf P owner credID) = true)
    (howner : P.ownerID c.ownerEmail ≠ P.ownerID owner) : c.credentialID ≠ credID := by
  intro hid
  obtain ⟨d, hd, hof⟩ := List.any_eq_true.mp hany
  obtain ⟨hdown, hdid⟩ := WebAuthnCredential.isOf_eq_true.mp hof
  obtain rfl := Table.eq_of_key hc hd (hid.trans hdid.symm)
  exact howner hdown

theorem ownStep_own {now : Nat} {act : ShelfAct} {shelf : List Shelved}
    (h : P.ownerID act.owner = key) : ownStep P key now (some act) shelf = act.apply now shelf := by
  rw [ownStep, if_pos h]

theorem ownStep_other {now : Nat} {act : ShelfAct} {shelf : List Shelved}
    (h : P.ownerID act.owner ≠ key) : ownStep P key now (some act) shelf = shelf := by
  rw [ownStep, if_neg h]

theorem shelf_put {name : List UInt8} (h : ShelfStep P s s' (some (.put c name))) :
    s'.shelf P key = ownStep P key s.world.now (some (.put c name)) (s.shelf P key) := by
  obtain ⟨hins, hlabels⟩ := h
  obtain ⟨hfresh, hrows⟩ := Table.insert?_eq_some.mp hins
  have hold : (s.world.passkeys.rows.filter fun d => P.ownerID d.ownerEmail = key).map s'.shelved =
      s.shelf P key := by
    refine List.map_congr_left fun d hd => ?_
    have hne : d.credentialID ≠ c.credentialID := fun heq =>
      hfresh (List.mem_map.mpr ⟨d, (mem_ownRows.mp hd).1, heq⟩)
    rw [Site.shelved, Site.shelved, hlabels, Function.update_of_ne hne]
  rw [Site.shelf, hrows, List.filter_append, List.map_append, hold]
  by_cases hkey : P.ownerID c.ownerEmail = key
  · rw [ownStep_own (show P.ownerID (ShelfAct.put c name).owner = key from hkey)]
    simp [hkey, ShelfAct.apply, Site.shelved, hlabels]
  · rw [ownStep_other (show P.ownerID (ShelfAct.put c name).owner ≠ key from hkey)]
    simp [hkey]

/-- An update that keeps owners and ids maps the shelf. -/
theorem shelf_map {f : WebAuthnCredential → WebAuthnCredential} {g : Shelved → Shelved}
    (hrows : s'.world.passkeys.rows = s.world.passkeys.rows.map f)
    (howner : ∀ d, (f d).ownerEmail = d.ownerEmail)
    (hg : ∀ d ∈ s.world.passkeys.rows, P.ownerID d.ownerEmail = key →
      s'.shelved (f d) = g (s.shelved d)) :
    s'.shelf P key = (s.shelf P key).map g := by
  have hkeys : (fun d : WebAuthnCredential => decide (P.ownerID d.ownerEmail = key)) ∘ f =
      fun d => decide (P.ownerID d.ownerEmail = key) := by
    funext d
    rw [Function.comp_apply, howner]
  rw [Site.shelf, Site.shelf, hrows, List.filter_map, hkeys, List.map_map, List.map_map]
  refine List.map_congr_left fun d hd => ?_
  obtain ⟨hd, hown⟩ := mem_ownRows.mp hd
  exact hg d hd hown

theorem shelf_renew {owner credID credJSON : String}
    (h : ShelfStep P s s' (some (.renew owner credID credJSON))) :
    s'.shelf P key = ownStep P key s.world.now (some (.renew owner credID credJSON)) (s.shelf P key) := by
  obtain ⟨htable, hlabels⟩ := h
  have hrows : s'.world.passkeys.rows = s.world.passkeys.rows.map fun d =>
      if d.isOf P owner credID then { d with credentialJSON := credJSON } else d := by
    rw [htable]
    rfl
  have howner : ∀ d : WebAuthnCredential,
      (if d.isOf P owner credID then { d with credentialJSON := credJSON } else d).ownerEmail =
        d.ownerEmail := by
    intro d
    split <;> rfl
  rw [Site.touched] at hlabels
  by_cases hkey : P.ownerID owner = key
  · rw [ownStep_own (show P.ownerID (ShelfAct.renew owner credID credJSON).owner = key from hkey)]
    refine shelf_map hrows howner fun d hd hown => ?_
    by_cases hid : d.credentialID = credID
    · have hof : d.isOf P owner credID = true :=
        WebAuthnCredential.isOf_eq_true.mpr ⟨hown.trans hkey.symm, hid⟩
      have hany : s.world.passkeys.rows.any (·.isOf P owner credID) = true :=
        List.any_eq_true.mpr ⟨d, hd, hof⟩
      simp [Site.shelved, hof, hlabels, hany, hid]
    · have hof : d.isOf P owner credID = false := by
        simp [WebAuthnCredential.isOf, hid]
      have hsame : s'.labels d.credentialID = s.labels d.credentialID := by
        rw [hlabels]
        split
        · rw [Function.update_of_ne hid]
        · rfl
      simp [Site.shelved, hof, hid, hsame]
  · rw [ownStep_other (show P.ownerID (ShelfAct.renew owner credID credJSON).owner ≠ key from hkey)]
    have hid : (s.shelf P key).map id = s.shelf P key := List.map_id _
    refine (shelf_map hrows howner fun d hd hown => ?_).trans hid
    have hne : P.ownerID d.ownerEmail ≠ P.ownerID owner := fun heq => hkey (heq.symm.trans hown)
    have hof : d.isOf P owner credID = false := by
      simp [WebAuthnCredential.isOf, hne]
    have hsame : s'.labels d.credentialID = s.labels d.credentialID := by
      rw [hlabels]
      split
      · rename_i hany
        rw [Function.update_of_ne (ne_of_otherOwner hd hany hne)]
      · rfl
    simp [Site.shelved, hof, hsame]

theorem shelf_rename {owner credID : String} {name : List UInt8}
    (h : ShelfStep P s s' (some (.rename owner credID name))) :
    s'.shelf P key = ownStep P key s.world.now (some (.rename owner credID name)) (s.shelf P key) := by
  obtain ⟨htable, hany, hlabels⟩ := h
  have hrows : s'.world.passkeys.rows = s.world.passkeys.rows.map id := by
    rw [htable, List.map_id]
  by_cases hkey : P.ownerID owner = key
  · rw [ownStep_own (show P.ownerID (ShelfAct.rename owner credID name).owner = key from hkey)]
    refine shelf_map hrows (fun _ => rfl) fun d _ _ => ?_
    by_cases hid : d.credentialID = credID
    · simp [Site.shelved, hlabels, hid]
    · simp [Site.shelved, hlabels, hid]
  · rw [ownStep_other (show P.ownerID (ShelfAct.rename owner credID name).owner ≠ key from hkey)]
    have hid : (s.shelf P key).map id = s.shelf P key := List.map_id _
    refine (shelf_map hrows (fun _ => rfl) fun d hd hown => ?_).trans hid
    have hne : P.ownerID d.ownerEmail ≠ P.ownerID owner := fun heq => hkey (heq.symm.trans hown)
    simp [Site.shelved, hlabels, Function.update_of_ne (ne_of_otherOwner hd hany hne)]

theorem shelf_drop {owner credID : String} (h : ShelfStep P s s' (some (.drop owner credID))) :
    s'.shelf P key = ownStep P key s.world.now (some (.drop owner credID)) (s.shelf P key) := by
  obtain ⟨htable, hlabels⟩ := h
  have hshelved : s'.shelved = s.shelved := by
    funext d
    rw [Site.shelved, Site.shelved, hlabels]
  have hrows : s'.world.passkeys.rows.filter (fun d => P.ownerID d.ownerEmail = key) =
      (s.world.passkeys.rows.filter fun d => P.ownerID d.ownerEmail = key).filter
        fun d => !d.isOf P owner credID := by
    rw [htable, Table.delete, List.filter_filter, List.filter_filter]
    exact List.filter_congr fun d _ => Bool.and_comm _ _
  rw [Site.shelf, hrows, hshelved]
  by_cases hkey : P.ownerID owner = key
  · rw [ownStep_own (show P.ownerID (ShelfAct.drop owner credID).owner = key from hkey),
      ShelfAct.apply, Site.shelf, List.filter_map]
    refine congrArg (List.map s.shelved) (List.filter_congr fun d hd => ?_)
    have hown := (mem_ownRows.mp hd).2
    by_cases hid : d.credentialID = credID <;>
      simp [WebAuthnCredential.isOf, Site.shelved, hown, hkey, hid]
  · rw [ownStep_other (show P.ownerID (ShelfAct.drop owner credID).owner ≠ key from hkey)]
    refine congrArg (List.map s.shelved) (List.filter_eq_self.mpr fun d hd => ?_)
    have hne : P.ownerID d.ownerEmail ≠ P.ownerID owner := fun heq =>
      hkey (heq.symm.trans (mem_ownRows.mp hd).2)
    simp [WebAuthnCredential.isOf, hne]

/-- **On the shelf of an owner**, a call of the owner is its act, and any other
call is nothing. -/
theorem shelf_step {act : Option ShelfAct} (h : ShelfStep P s s' act) :
    s'.shelf P key = ownStep P key s.world.now act (s.shelf P key) := by
  rcases act with _ | ⟨c, name⟩ | ⟨owner, credID, credJSON⟩ | ⟨owner, credID, name⟩ | ⟨owner, credID⟩
  · obtain ⟨htable, hlabels⟩ := h
    have hshelved : s'.shelved = s.shelved := by
      funext d
      rw [Site.shelved, Site.shelved, hlabels]
    rw [ownStep, Site.shelf, Site.shelf, htable, hshelved]
  · exact shelf_put h
  · exact shelf_renew h
  · exact shelf_rename h
  · exact shelf_drop h

end Shelf

/-! ## Runs -/

/-- The acts of an owner column in a trace, with their times. -/
def ownActs {ι : Type} (P : Params) (key : String) (tr : List (Entry ι Site SiteOp SiteAns)) :
    List (Nat × ShelfAct) :=
  tr.filterMap fun e => (shelfAct e.event).bind fun act =>
    if P.ownerID act.owner = key then some (e.pre.world.now, act) else none

/-- Acts one after the other. -/
def replay (acts : List (Nat × ShelfAct)) (shelf : List Shelved) : List Shelved :=
  acts.foldl (fun shelf act => act.2.apply act.1 shelf) shelf

section Runs

variable {ι : Type} {key : String}

theorem replay_snoc (tr : List (Entry ι Site SiteOp SiteAns)) (e : Entry ι Site SiteOp SiteAns)
    (shelf : List Shelved) :
    replay (ownActs P key (tr ++ [e])) shelf =
      ownStep P key e.pre.world.now (shelfAct e.event) (replay (ownActs P key tr) shelf) := by
  rw [ownActs, List.filterMap_append, replay, List.foldl_append]
  rcases hact : shelfAct e.event with _ | act
  · simp [hact, ownStep, replay, ownActs]
  · by_cases hkey : P.ownerID act.owner = key
    · simp [hact, hkey, ownStep, replay, ownActs]
    · simp [hact, hkey, ownStep, replay, ownActs]

variable [DecidableEq ι] {reqs : ι → SiteRequest} {s : Site}
  {tr : List (Entry ι Site SiteOp SiteAns)} {c : Conf ι Site SiteOp SiteAns SiteResp}

/-- What a request has behind it at each of its calls in a run. -/
theorem passkeyRule_run (hreqs : ∀ i, (reqs i).handled = true)
    (hrun : Run (siteSem P R) (s.open P R reqs) tr c) {i : ι} {o : SiteOp}
    {k : SiteAns o → SiteHandler SiteResp} (hk : c.procs i = .call o k) :
    PasskeyRule P R (reqs i) (proj i tr) o :=
  hrun.along (fun i => passkeyRule_prog P R (reqs i) (hreqs i)) hk

/-- **A shelf is the replay of its owner's acts.** -/
theorem shelf_run (hreqs : ∀ i, (reqs i).handled = true)
    (hrun : Run (siteSem P R) (s.open P R reqs) tr c) (key : String) :
    c.state.shelf P key = replay (ownActs P key tr) (s.shelf P key) := by
  refine hrun.invariant (I := fun tr s' => s'.shelf P key = replay (ownActs P key tr) (s.shelf P key))
    rfl fun tr c e hpre hstate hcall hsem hinv => ?_
  obtain ⟨k, hk⟩ := hcall
  have hstep : ShelfStep P e.pre e.post (shelfAct e.event) :=
    shelfStep hsem (passkeyRule_run hreqs hpre hk).notByHand
  rw [shelf_step hstep, hinv, replay_snoc]

/-! ### In order of creation -/

/-- The entries in order of creation, none from the future. -/
structure Dated (now : Nat) (shelf : List Shelved) : Prop where
  sorted : shelf.Pairwise fun x y => x.label.createdAt ≤ y.label.createdAt
  past : ∀ x ∈ shelf, x.label.createdAt ≤ now

theorem Dated.mono {now now' : Nat} {shelf : List Shelved} (h : Dated now shelf) (hle : now ≤ now') :
    Dated now' shelf := ⟨h.sorted, fun x hx => (h.past x hx).trans hle⟩

theorem Dated.map {now : Nat} {shelf : List Shelved} (h : Dated now shelf) {g : Shelved → Shelved}
    (hg : ∀ x, (g x).label.createdAt = x.label.createdAt) : Dated now (shelf.map g) where
  sorted := by
    rw [List.pairwise_map]
    exact h.sorted.imp fun hle => by rwa [hg, hg]
  past x hx := by
    obtain ⟨y, hy, rfl⟩ := List.mem_map.mp hx
    rw [hg]
    exact h.past y hy

theorem Dated.apply {now : Nat} {shelf : List Shelved} (h : Dated now shelf) (act : ShelfAct) :
    Dated now (act.apply now shelf) := by
  cases act with
  | put c name =>
    refine ⟨List.pairwise_append.mpr ⟨h.sorted, List.pairwise_singleton _ _, ?_⟩, fun x hx => ?_⟩
    · intro x hx y hy
      obtain rfl := List.mem_singleton.mp hy
      exact h.past x hx
    · rcases List.mem_append.mp hx with hx | hx
      · exact h.past x hx
      · obtain rfl := List.mem_singleton.mp hx
        exact Nat.le_refl _
  | renew owner credID credJSON =>
    refine h.map fun x => ?_
    split <;> rfl
  | rename owner credID name =>
    refine h.map fun x => ?_
    split <;> rfl
  | drop owner credID =>
    exact ⟨h.sorted.sublist List.filter_sublist, fun x hx => h.past x (List.mem_filter.mp hx).1⟩

theorem Dated.ownStep {now : Nat} {shelf : List Shelved} (h : Dated now shelf)
    (act : Option ShelfAct) : Dated now (ownStep P key now act shelf) := by
  rcases act with _ | act
  · exact h
  · rw [Backend.ownStep]
    split
    · exact h.apply act
    · exact h

/-- The clock does not go back. -/
theorem siteSem_now {o : SiteOp} {s s' : Site} {r : SiteAns o} (h : siteSem P R o s r s') :
    s.world.now ≤ s'.world.now := by
  cases o with
  | inl o =>
    have hsem : sem P o s.world r s'.world := h.1
    by_cases hpart : o.part = .clock
    · cases o with
      | tick d =>
        rcases sem_cases hsem with ⟨-, hw⟩ | ⟨e, he, -⟩
        · rw [hw]
          exact Nat.le_add_right _ _
        · cases he
      | _ => cases hpart
    · exact Nat.le_of_eq ((sem_frame hsem).now hpart).symm
  | inr o =>
    obtain ⟨-, hx | ⟨e, -, rfl⟩⟩ := h
    · obtain ⟨-, rfl⟩ := Prod.mk.inj hx
      cases o with
      | beginRegistration user =>
        change s.world.now ≤ (s.world.beginRegistration P R user).2.now
        rw [World.beginRegistration]
        split <;> exact Nat.le_refl _
      | finishRegistration user id response =>
        change s.world.now ≤ (s.world.finishRegistration R user id response).2.now
        rw [World.finishRegistration]
        split
        · exact Nat.le_refl _
        · split
          · exact Nat.le_refl _
          · split <;> exact Nat.le_refl _
      | createPasskey c name =>
        have hnow := (createWebAuthnCredential_frame c s.world).now (by decide)
        exact Nat.le_of_eq ((congrArg World.now (createPasskey_world c name s)).trans hnow).symm
      | renamePasskey owner credID name =>
        change s.world.now ≤ (s.renamePasskey P owner credID name).2.world.now
        rw [Site.renamePasskey]
        split <;> exact Nat.le_refl _
      | deletePasskey owner credID => exact Nat.le_refl _
      | listPasskeys owner => exact Nat.le_refl _
      | sweepCeremonies => exact Nat.le_refl _
    · exact Nat.le_refl _

/-- Shelves are in order of creation after every run that starts with them so. -/
theorem dated_run (hreqs : ∀ i, (reqs i).handled = true)
    (hrun : Run (siteSem P R) (s.open P R reqs) tr c) (h0 : Dated s.world.now (s.shelf P key)) :
    Dated c.state.world.now (c.state.shelf P key) := by
  refine hrun.invariant (I := fun _ s' => Dated s'.world.now (s'.shelf P key)) h0
    fun tr c e hpre hstate hcall hsem hinv => ?_
  obtain ⟨k, hk⟩ := hcall
  have hstep : ShelfStep P e.pre e.post (shelfAct e.event) :=
    shelfStep hsem (passkeyRule_run hreqs hpre hk).notByHand
  rw [shelf_step hstep]
  exact (hinv.ownStep _).mono (siteSem_now hsem)

/-- What `ListWebAuthnCredentials` answers is the owner's shelf, if that is in order. -/
theorem listPasskeys_eq (owner : String) (h : Dated s.world.now (s.shelf P (P.ownerID owner))) :
    s.listPasskeys P owner = (s.shelf P (P.ownerID owner)).map (·.passkey owner) := by
  have hrows : (s.world.passkeysOf P owner).map (s.row owner) =
      (s.shelf P (P.ownerID owner)).map (·.passkey owner) := by
    rw [Site.shelf, List.map_map]
    rfl
  rw [Site.listPasskeys, hrows]
  refine List.Pairwise.insertionSort_eq (List.pairwise_map.mpr ?_)
  exact h.sorted.imp fun hle => by simpa [Shelved.passkey] using hle

/-! ### What a request sees -/

/-- `WebAuthnList` shows what its one call has answered. -/
theorem along_webAuthnList (ctx : AuthContext) :
    Along (fun _ _ => True)
      (fun h resp => ∀ dtos, resp = .credentials dtos →
        ∃ l, ⟨.inr (.listPasskeys (P.normalizeEmail ctx.email)), .ok l⟩ ∈ h ∧
          dtos = l.map (toWebAuthnDTO P R))
      (webAuthnList P R (some ctx)) [] := by
  refine Along.step trivial fun r => ?_
  rcases r with e | l
  · rintro dtos ⟨⟩
  · rintro dtos ⟨⟩
    exact ⟨l, by simp, rfl⟩

/-- **What a passkey list shows** is the replay of the owner's own successful
calls before it, oldest passkey first: no request of another owner, however
interleaved, adds, changes or removes an entry. -/
theorem list_replays (hreqs : ∀ i, (reqs i).handled = true) (hnone : s.world.passkeys.rows = [])
    (hrun : Run (siteSem P R) (s.open P R reqs) tr c) {i : ι} {ctx : AuthContext}
    {dtos : List WebAuthnCredentialDTO} (hreq : reqs i = .list (some ctx))
    (hresp : c.procs i = .ret (.credentials dtos)) :
    ∃ pre e post, tr = pre ++ e :: post ∧ e.who = i ∧
      dtos = (replay (ownActs P (P.ownerID (P.normalizeEmail ctx.email)) pre) []).map
        fun x => toWebAuthnDTO P R (x.passkey (P.normalizeEmail ctx.email)) := by
  have hprog : (s.open P R reqs).procs i = webAuthnList P R (some ctx) := by
    change (reqs i).prog P R = _
    rw [hreq]
    rfl
  have hpath := hrun.path i
  rw [hprog, hresp] at hpath
  obtain ⟨l, hl, rfl⟩ := (along_webAuthnList ctx).path hpath dtos rfl
  obtain ⟨e, he, hwho, hev⟩ := mem_proj.mp hl
  obtain ⟨pre, post, htr⟩ := List.append_of_mem he
  obtain ⟨c₁, hpre, hstate, -, hsem⟩ := hrun.cut htr
  have hempty : s.shelf P (P.ownerID (P.normalizeEmail ctx.email)) = [] := by
    rw [Site.shelf, hnone]
    rfl
  have hshelf := shelf_run hreqs hpre (P.ownerID (P.normalizeEmail ctx.email))
  have hdated : Dated c₁.state.world.now
      (c₁.state.shelf P (P.ownerID (P.normalizeEmail ctx.email))) := by
    refine dated_run hreqs hpre ?_
    rw [hempty]
    exact ⟨List.Pairwise.nil, nofun⟩
  rw [hstate] at hshelf hdated
  obtain ⟨who, op, ans, epre, epost⟩ := e
  cases hev
  obtain ⟨-, hx | ⟨e, he, -⟩⟩ := hsem
  · refine ⟨pre, _, post, htr, hwho, ?_⟩
    have hans := Except.ok.inj (Prod.mk.inj hx).1
    rw [hans, listPasskeys_eq _ hdated, hshelf, hempty, List.map_map]
    rfl
  · cases he

end Runs

/-- What a request's response shows. -/
def shown : SiteHandler SiteResp → Option (List WebAuthnCredentialDTO)
  | .ret (.credentials dtos) => some dtos
  | _ => none

theorem shown_eq_some {p : SiteHandler SiteResp} {dtos : List WebAuthnCredentialDTO} :
    shown p = some dtos ↔ p = .ret (.credentials dtos) := by
  constructor
  · intro h
    cases p with
    | ret resp =>
      cases resp with
      | credentials l =>
        obtain rfl := Option.some.inj h
        rfl
      | _ => cases h
    | call o k => cases h
  · rintro rfl
    rfl

/-- The list of a visit, between its registrations and its delete. -/
theorem list_replays_visit :
    ∃ dtos pre e post, visit.2.procs 4 = .ret (.credentials dtos) ∧ dtos.map (·.id) = ["key", "spare"] ∧
      visit.1 = pre ++ e :: post ∧ e.who = 4 ∧
      dtos = (replay (ownActs .keyed "a@x" pre) []).map
        fun x => toWebAuthnDTO .keyed .sample (x.passkey "a@x") := by
  have hshown : (shown (visit.2.procs 4)).map (·.map (·.id)) = some ["key", "spare"] := by
    decide +kernel
  obtain ⟨dtos, hdtos, hids⟩ := Option.map_eq_some_iff.mp hshown
  have hresp := shown_eq_some.mp hdtos
  have hreq : visits 4 = .list (some visitor) := rfl
  obtain ⟨pre, e, post, htr, hwho, heq⟩ := list_replays handled_visits rfl run_visit hreq hresp
  refine ⟨dtos, pre, e, post, hresp, hids, htr, hwho, ?_⟩
  have howner : Params.keyed.normalizeEmail visitor.email = "a@x" := by decide +kernel
  have hkey : Params.keyed.ownerID "a@x" = "a@x" := by decide +kernel
  rwa [howner, hkey] at heq

end E2Mail.Backend
