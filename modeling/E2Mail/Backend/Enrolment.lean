import E2Mail.Backend.PasskeyShelf
import E2Mail.Backend.LoginPaths

/-!
# Where passkeys come from

A passkey is stored by one request and its ceremony begun by another, and
nothing but the ceremony's session data ties the two together: the owner's blind
index in it, which the library compares with the user it is given.

* `Library` — what the WebAuthn library and `encoding/json` promise;
* `passkeys_enrolled` — every stored passkey was stored by a request of its
  owner, after a ceremony begun for the same owner; no two share a ceremony.
-/

namespace E2Mail.Backend

open Lib

/-! ## Assumptions and properties -/

/-- What the WebAuthn library promises of its session data and credentials, and
that stored records read back. -/
structure Library (P : Params) (R : Registration) : Prop where
  uuid : Function.Injective P.uuid
  beginLogin : ∀ user n data, P.waBeginLogin user n = .ok data → data.userID = user.id
  beginRegistration : ∀ user n data, R.waBeginRegistration user n = .ok data → data.userID = user.id
  finishLogin : ∀ user data assertion cred, P.waFinishLogin user data assertion = some cred →
    data.userID = user.id ∧ ∃ known ∈ user.credentials, known.id = cred.id
  finishRegistration : ∀ user data response cred,
    R.waFinishRegistration user data response = some cred → data.userID = user.id
  readsLogin : ∀ user data assertion cred, P.waFinishLogin user data assertion = some cred →
    P.parseCredential cred.json = some cred
  readsRegistration : ∀ user data response cred,
    R.waFinishRegistration user data response = some cred → P.parseCredential cred.json = some cred

/-- A server start: no passkey is stored and no ceremony is under way. -/
structure Site.Fresh (s : Site) : Prop where
  passkeys : s.world.passkeys.rows = []
  ceremonies : ∀ id, s.world.ceremonies id = none

section Properties

variable {ι : Type} [DecidableEq ι] (P : Params) (R : Registration) (reqs : ι → SiteRequest)

/-- Entry `b` has begun the ceremony `id` for the owner column `key`; `tr` is the trace before it. -/
def BeganFor (key id : String) (tr : List (Entry ι Site SiteOp SiteAns))
    (b : Entry ι Site SiteOp SiteAns) : Prop :=
  (∃ cer, Begins P R b.event id cer) ∧ BeginGrounds P (reqs b.who) key (proj b.who tr) b.op

/-- Entry `v` has verified an attestation for the credential `credID` in the ceremony `id`. -/
def Attested (id credID : String) (v : Entry ι Site SiteOp SiteAns) : Prop :=
  ∃ user response cred, v.event = ⟨.inr (.finishRegistration user id response), .ok cred⟩ ∧
    cred.id = credID

/-- Entry `w` has stored a passkey `credID` of `owner`. -/
def Stored (owner credID : String) (w : Entry ι Site SiteOp SiteAns) : Prop :=
  ∃ c name p, w.event = ⟨.inr (.createPasskey c name), .ok p⟩ ∧ c.ownerEmail = owner ∧
    c.credentialID = credID

/-- The passkey `credID` of `owner` was enrolled in the ceremony `id`: it was
begun for the owner, then an attestation was verified in it and the passkey
stored, both by one request from a session of the owner. -/
def Enrolled (owner credID id : String) (tr : List (Entry ι Site SiteOp SiteAns)) : Prop :=
  ∃ t₁ b t₂ v t₃ w t₄, tr = t₁ ++ b :: t₂ ++ v :: t₃ ++ w :: t₄ ∧
    BeganFor P R reqs (P.ownerID owner) id t₁ b ∧ Attested id credID v ∧ Stored owner credID w ∧
    v.who = w.who ∧ ∃ ctx given response,
      reqs w.who = .registerFinish (some ctx) id given response ∧
        owner = P.normalizeEmail ctx.email

end Properties

/-! ## What the finishing calls answer -/

section Answers

variable {P : Params} {R : Registration} {s s' : Site}

theorem finishRegistration_answer {user : WebAuthnUser} {id response : String} {cred : Credential}
    (h : siteSem P R (.inr (.finishRegistration user id response)) s (.ok cred) s') :
    ∃ c, s.world.ceremonies id = some c ∧
      R.waFinishRegistration user c.data response = some cred := by
  obtain ⟨-, hx | ⟨e, he, -⟩⟩ := h
  · have hr : .ok cred = (s.world.finishRegistration R user id response).1 := (Prod.mk.inj hx).1
    rw [World.finishRegistration] at hr
    rcases hc : s.world.ceremonies id with _ | c
    · simp [hc] at hr
    · simp only [hc] at hr
      split at hr
      · cases hr
      · rcases hf : R.waFinishRegistration user c.data response with _ | cred'
        · simp [hf] at hr
        · simp only [hf] at hr
          exact ⟨c, rfl, hf.trans (congrArg some (Except.ok.inj hr).symm)⟩
  · cases he

/-- A ceremony that was begun for a user carries the user's id. -/
theorem userID_of_begins (hlib : Library P R) {v : Event SiteOp SiteAns} {id : String} {c : Ceremony}
    (h : Begins P R v id c) : ∃ user, beginningUser v.1 = some user ∧ c.data.userID = user.id := by
  rcases h with ⟨user, n, rfl, hbegin⟩ | ⟨user, n, rfl, hbegin, -⟩
  · exact ⟨user, rfl, hlib.beginLogin user n _ hbegin⟩
  · exact ⟨user, rfl, hlib.beginRegistration user n _ hbegin⟩

end Answers

/-! ## Enrolment -/

section Runs

variable {ι : Type} [DecidableEq ι] {P : Params} {R : Registration} {reqs : ι → SiteRequest} {s : Site}
  {tr pre post : List (Entry ι Site SiteOp SiteAns)} {c : Conf ι Site SiteOp SiteAns SiteResp}

/-- What an entry's request had behind it. -/
theorem rule_of_cut (hreqs : ∀ i, (reqs i).handled = true)
    (hrun : Run (siteSem P R) (s.open P R reqs) tr c) {e : Entry ι Site SiteOp SiteAns}
    (htr : tr = pre ++ e :: post) : PasskeyRule P R (reqs e.who) (proj e.who pre) e.op := by
  obtain ⟨c₁, hpre, -, ⟨k, hk⟩, -⟩ := hrun.cut htr
  exact passkeyRule_run hreqs hpre hk

/-- Every stored row was stored by a call of the run. -/
theorem stored_run (hreqs : ∀ i, (reqs i).handled = true) (hnone : s.world.passkeys.rows = [])
    (hrun : Run (siteSem P R) (s.open P R reqs) tr c) {row : WebAuthnCredential}
    (hrow : row ∈ c.state.world.passkeys.rows) :
    ∃ w ∈ tr, Stored row.ownerEmail row.credentialID w := by
  refine hrun.invariant (I := fun tr s' => ∀ row ∈ s'.world.passkeys.rows,
    ∃ w ∈ tr, Stored row.ownerEmail row.credentialID w) ?_ ?_ row hrow
  · intro row hrow
    rw [show (s.open P R reqs).state.world.passkeys.rows = [] from hnone] at hrow
    cases hrow
  intro tr c e hpre hstate hcall hsem hinv row hrow
  have hold : ∀ d ∈ e.pre.world.passkeys.rows,
      ∃ w ∈ tr ++ [e], Stored d.ownerEmail d.credentialID w := by
    intro d hd
    obtain ⟨w, hw, hstored⟩ := hinv d hd
    exact ⟨w, List.mem_append_left _ hw, hstored⟩
  obtain ⟨k, hk⟩ := hcall
  have hstep : ShelfStep P e.pre e.post (shelfAct e.event) :=
    shelfStep hsem (passkeyRule_run hreqs hpre hk).notByHand
  rcases row_cases hstep hrow with hrow | ⟨name, hact⟩ | ⟨owner, credID, credJSON, -, d, hd, -, rfl⟩
  · exact hold row hrow
  · obtain ⟨p, hev⟩ := event_of_put hact
    exact ⟨e, by simp, row, name, p, hev, rfl, rfl⟩
  · exact hold d hd

/-- A ceremony that a call has verified was begun for the user it was verified for. -/
theorem begun_of_proven (hlib : Library P R) (hfresh : s.Fresh) (hreqs : ∀ i, (reqs i).handled = true)
    (hrun : Run (siteSem P R) (s.open P R reqs) tr c) {v : Entry ι Site SiteOp SiteAns} {id : String}
    (htr : tr = pre ++ v :: post) (hid : provenCeremony v.event = some id) {user : WebAuthnUser}
    (huser : ∀ cer, v.pre.world.ceremonies id = some cer → cer.data.userID = user.id) :
    ∃ t₁ b t₂ cer, pre = t₁ ++ b :: t₂ ∧ v.pre.world.ceremonies id = some cer ∧
      Begins P R b.event id cer ∧ BeganFor P R reqs user.id id t₁ b := by
  obtain ⟨b, hb, cer, hbegin, hcer, -⟩ := ceremony_begun hlib.uuid hfresh.ceremonies hrun htr hid
  obtain ⟨t₁, t₂, rfl⟩ := List.append_of_mem hb
  obtain ⟨user', huser', hdata⟩ := userID_of_begins hlib hbegin
  have hcut : tr = t₁ ++ b :: (t₂ ++ v :: post) := by simp [htr]
  have hrule := rule_of_cut hreqs hrun hcut
  have hkey : user'.id = user.id := hdata.symm.trans (huser cer hcer)
  exact ⟨t₁, b, t₂, cer, rfl, hcer, hbegin, ⟨cer, hbegin⟩, hkey ▸ hrule.begins user' huser'⟩

/-- What a stored passkey goes back to. -/
theorem enrolled_of_stored (hlib : Library P R) (hfresh : s.Fresh)
    (hreqs : ∀ i, (reqs i).handled = true) (hrun : Run (siteSem P R) (s.open P R reqs) tr c)
    {owner credID : String} {w : Entry ι Site SiteOp SiteAns} (htr : tr = pre ++ w :: post)
    (hw : Stored owner credID w) : ∃ id, Enrolled P R reqs owner credID id tr := by
  obtain ⟨d, name, p, hev, rfl, rfl⟩ := hw
  have hrule := rule_of_cut hreqs hrun htr
  have hop : w.op = .inr (.createPasskey d name) := congrArg Sigma.fst hev
  obtain ⟨ctx, id, given, response, user, cred, hreq, huser, hfin, rfl, -, -⟩ :=
    hrule.stores d name hop
  obtain ⟨v, hv, hwho, hvev⟩ := mem_proj.mp hfin
  obtain ⟨t, t₃, rfl⟩ := List.append_of_mem hv
  have hcut : tr = t ++ v :: (t₃ ++ w :: post) := by simp [htr]
  have hproven : provenCeremony v.event = some id := by
    rw [hvev]
    rfl
  have hdata : ∀ cer, v.pre.world.ceremonies id = some cer → cer.data.userID = user.id := by
    intro cer hcer
    have hsem := hrun.sem_of_mem (e := v) (by simp [hcut])
    obtain ⟨vwho, vop, vans, vpre, vpost⟩ := v
    cases hvev
    obtain ⟨cer', hcer', hver⟩ := finishRegistration_answer hsem
    obtain rfl := Option.some.inj (hcer'.symm.trans hcer)
    exact hlib.finishRegistration user _ response cred hver
  obtain ⟨t₁, b, t₂, -, rfl, -, -, hbegan⟩ := begun_of_proven hlib hfresh hreqs hrun hcut hproven hdata
  rw [huser] at hbegan
  exact ⟨id, t₁, b, t₂, v, t₃, w, post, by simp [htr], hbegan, ⟨user, response, cred, hvev, rfl⟩,
    ⟨_, name, p, hev, rfl, rfl⟩, hwho, ctx, given, response, hreq, rfl⟩

/-- A request stores at most one passkey. -/
theorem stored_unique (hreqs : ∀ i, (reqs i).handled = true)
    (hrun : Run (siteSem P R) (s.open P R reqs) tr c) {w w' : Entry ι Site SiteOp SiteAns}
    (hw : w ∈ tr) (hw' : w' ∈ tr) (hwho : w.who = w'.who) (hst : storesPasskey w.op = true)
    (hst' : storesPasskey w'.op = true) : w = w' := by
  have hfirst : ∀ {x y : Entry ι Site SiteOp SiteAns} {a b : List (Entry ι Site SiteOp SiteAns)},
      tr = a ++ x :: b → y ∈ a → y.who = x.who → storesPasskey x.op = true →
      storesPasskey y.op = false := by
    intro x y a b htr hy hyx hx
    have hrule := rule_of_cut hreqs hrun htr
    have hmem : y.event ∈ proj x.who a := mem_proj.mpr ⟨y, hy, hyx, rfl⟩
    rcases ho : x.op with o | o
    · rw [ho] at hx
      cases hx
    · cases o with
      | createPasskey d name =>
        obtain ⟨-, -, -, -, -, -, -, -, -, -, -, hnone⟩ := hrule.stores d name ho
        exact hnone _ hmem
      | _ =>
        rw [ho] at hx
        cases hx
  obtain ⟨a, b, htr⟩ := List.append_of_mem hw
  rw [htr] at hw'
  rcases List.mem_append.mp hw' with hmem | hmem
  · rw [hfirst htr hmem hwho.symm hst] at hst'
    cases hst'
  rcases List.mem_cons.mp hmem with rfl | hmem
  · rfl
  · obtain ⟨a', b', rfl⟩ := List.append_of_mem hmem
    have hcut : tr = (a ++ w :: a') ++ w' :: b' := by simp [htr]
    rw [hfirst hcut (by simp) hwho hst'] at hst
    cases hst

/-- Every stored passkey is enrolled. -/
theorem enrolled_of_row (hlib : Library P R) (hfresh : s.Fresh)
    (hreqs : ∀ i, (reqs i).handled = true) (hrun : Run (siteSem P R) (s.open P R reqs) tr c)
    {row : WebAuthnCredential} (hrow : row ∈ c.state.world.passkeys.rows) :
    ∃ id, Enrolled P R reqs row.ownerEmail row.credentialID id tr := by
  obtain ⟨w, hw, hstored⟩ := stored_run hreqs hfresh.passkeys hrun hrow
  obtain ⟨pre, post, htr⟩ := List.append_of_mem hw
  exact enrolled_of_stored hlib hfresh hreqs hrun htr hstored

/-- Two passkeys enrolled in one ceremony are one. -/
theorem enrolled_unique (hlib : Library P R) (hfresh : s.Fresh)
    (hreqs : ∀ i, (reqs i).handled = true) (hrun : Run (siteSem P R) (s.open P R reqs) tr c)
    {owner owner' credID credID' id : String} (h : Enrolled P R reqs owner credID id tr)
    (h' : Enrolled P R reqs owner' credID' id tr) : credID = credID' := by
  obtain ⟨t₁, b, t₂, v, t₃, w, t₄, htr, -, ⟨user, response, cred, hv, -⟩, hw, hvw, -⟩ := h
  obtain ⟨t₁', b', t₂', v', t₃', w', t₄', htr', -, ⟨user', response', cred', hv', -⟩, hw', hvw', -⟩ := h'
  have hproven : provenCeremony v.event = some id := by
    rw [hv]
    rfl
  have hproven' : provenCeremony v'.event = some id := by
    rw [hv']
    rfl
  have hsame : v' = v :=
    proven_unique hlib.uuid hfresh.ceremonies hrun (by simp [htr]) (by simp [htr']) hproven hproven'
  obtain ⟨d, name, p, hev, -, rfl⟩ := hw
  obtain ⟨d', name', p', hev', -, rfl⟩ := hw'
  have hwho : w.who = w'.who := by rw [← hvw, ← hvw', hsame]
  have hone : w = w' := by
    refine stored_unique hreqs hrun (by simp [htr]) (by simp [htr']) hwho ?_ ?_
    · rw [show w.op = _ from congrArg Sigma.fst hev]
      rfl
    · rw [show w'.op = _ from congrArg Sigma.fst hev']
      rfl
  rw [hone, hev'] at hev
  cases hev
  rfl

/-- **Every passkey is enrolled by its owner, in a ceremony of its own.** From a
server start, over any requests in any order and with any statement failing: a
stored passkey was stored by a request from a session of its owner, after an
attestation for it was verified in a ceremony that was begun before for the same
owner, and no two stored passkeys share a ceremony. -/
theorem passkeys_enrolled (hlib : Library P R) (hfresh : s.Fresh)
    (hreqs : ∀ i, (reqs i).handled = true) (hrun : Run (siteSem P R) (s.open P R reqs) tr c) :
    (∀ row ∈ c.state.world.passkeys.rows,
      ∃ id, Enrolled P R reqs row.ownerEmail row.credentialID id tr) ∧
    ∀ row ∈ c.state.world.passkeys.rows, ∀ row' ∈ c.state.world.passkeys.rows, ∀ id,
      Enrolled P R reqs row.ownerEmail row.credentialID id tr →
      Enrolled P R reqs row'.ownerEmail row'.credentialID id tr → row = row' := by
  refine ⟨fun row hrow => enrolled_of_row hlib hfresh hreqs hrun hrow, ?_⟩
  intro row hrow row' hrow' id h h'
  exact Table.eq_of_key hrow hrow' (enrolled_unique hlib hfresh hreqs hrun h h')

end Runs

/-! ## A visit -/

theorem library_keyed : Library .keyed .sample where
  uuid := injective_keyed
  beginLogin user n data h := (Except.ok.inj h).symm ▸ rfl
  beginRegistration user n data h := (Except.ok.inj h).symm ▸ rfl
  finishLogin user data assertion cred h := by
    change (if data.userID = user.id then _ else none) = some cred at h
    split at h
    · rename_i huser
      obtain ⟨known, hknown, rfl⟩ := Option.map_eq_some_iff.mp h
      exact ⟨huser, known, List.mem_of_find?_eq_some hknown, rfl⟩
    · cases h
  finishRegistration user data response cred h := by
    change (if data.userID = user.id then some _ else none) = some cred at h
    split at h
    · assumption
    · cases h
  readsLogin user data assertion cred h := by
    change (if data.userID = user.id then _ else none) = some cred at h
    split at h
    · obtain ⟨known, -, rfl⟩ := Option.map_eq_some_iff.mp h
      rfl
    · cases h
  readsRegistration user data response cred h := by
    change (if data.userID = user.id then some _ else none) = some cred at h
    split at h
    · obtain rfl := Option.some.inj h
      rfl
    · cases h

theorem fresh_empty : Site.empty.Fresh := ⟨rfl, fun _ => rfl⟩

/-- The passkey that is left after a visit. -/
theorem passkeys_enrolled_visit :
    visit.2.state.world.passkeys.rows = [⟨"a@x", "spare", "spare"⟩] ∧
      (∀ row ∈ visit.2.state.world.passkeys.rows,
        ∃ id, Enrolled .keyed .sample visits row.ownerEmail row.credentialID id visit.1) ∧
      ∀ row ∈ visit.2.state.world.passkeys.rows, ∀ row' ∈ visit.2.state.world.passkeys.rows, ∀ id,
        Enrolled .keyed .sample visits row.ownerEmail row.credentialID id visit.1 →
        Enrolled .keyed .sample visits row'.ownerEmail row'.credentialID id visit.1 → row = row' :=
  ⟨by decide +kernel, passkeys_enrolled library_keyed fresh_empty handled_visits run_visit⟩

end E2Mail.Backend
