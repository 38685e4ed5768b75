import E2Mail.Backend.Enrolment

/-!
# What a passkey opens

The other end of a passkey: the login. The request that finishes it names only a
ceremony; the pending login comes from the payload beside the ceremony, the
owner from the pending login, the passkeys from the table, and the session from
all three.

* `ceremony_stays` — a stored ceremony is never changed, only taken;
* `readable_run` — every stored record reads back as the credential of its row;
* `passkey_session` — a session that a passkey login creates goes back to a
  pending login of its owner, to a ceremony begun for that pending login, and to
  a passkey of the owner with an enrolment of its own;
* `ceremony_opens_once` — no two sessions come from one ceremony;
* `revoked` — no login that arrives after a passkey was deleted verifies it.
-/

namespace E2Mail.Backend

open Lib

/-! ## Properties -/

section Properties

variable {ι : Type} [DecidableEq ι] (P : Params) (R : Registration) (reqs : ι → SiteRequest)

/-- Request `i` has read the pending login `pendingID` of `owner`, which had not expired. -/
def ReadsPending (i : ι) (pendingID owner : String) (tr : List (Entry ι Site SiteOp SiteAns)) : Prop :=
  ∃ g ∈ tr, g.who = i ∧ ∃ pl, g.event = ⟨.inl (.pendingGet pendingID), some pl⟩ ∧
    g.pre.world.pending pendingID = some pl ∧ g.pre.world.now ≤ pl.expiresAt ∧
    owner = P.normalizeEmail pl.email

/-- The ceremony `id` was begun for `owner`, by a request that named the pending login `pendingID`. -/
def LoginBegun (pendingID owner id : String) (tr : List (Entry ι Site SiteOp SiteAns)) : Prop :=
  ∃ t₁ b t₂, tr = t₁ ++ b :: t₂ ∧ BeganFor P R reqs (P.ownerID owner) id t₁ b ∧
    ∃ ip, reqs b.who = .backend (.webAuthnLoginBegin ip (.ok pendingID))

/-- Request `i` has verified the assertion in the ceremony `id`, with the passkey `credID` of `owner`. -/
def VerifiedBy (i : ι) (id assertion owner credID : String)
    (tr : List (Entry ι Site SiteOp SiteAns)) : Prop :=
  ∃ v ∈ tr, v.who = i ∧ ∃ stored credJSON,
    v.event = ⟨.inl (.finishLogin (P.userOf owner stored) id assertion), .ok ⟨credID, credJSON⟩⟩

/-- The owner a call has created a session for. -/
def openedFor : Event SiteOp SiteAns → Option String
  | ⟨.inl (.sessionCreate sess _), .ok _⟩ => some sess.email
  | _ => none

/-- Every stored record reads back as a credential with the id of its row. -/
def Readable (s : Site) : Prop :=
  ∀ row ∈ s.world.passkeys.rows,
    ∃ cred, P.parseCredential row.credentialJSON = some cred ∧ cred.id = row.credentialID

end Properties

theorem op_of_openedFor {v : Event SiteOp SiteAns} {owner : String} (h : openedFor v = some owner) :
    ∃ sess dek, v.1 = .inl (.sessionCreate sess dek) ∧ sess.email = owner := by
  rcases v with ⟨o | o, r⟩
  · cases o with
    | sessionCreate sess dek =>
      rcases r with e | saved
      · cases h
      · exact ⟨sess, dek, rfl, Option.some.inj h⟩
    | _ => cases h
  · cases h

/-- The passkey that a call has found and deleted. -/
def removedBy : Event SiteOp SiteAns → Option String
  | ⟨.inr (.deletePasskey _ credID), .ok (_ + 1)⟩ => some credID
  | _ => none

theorem event_of_removedBy {v : Event SiteOp SiteAns} {credID : String}
    (h : removedBy v = some credID) :
    ∃ owner n, v = ⟨.inr (.deletePasskey owner credID), .ok (n + 1)⟩ := by
  rcases v with ⟨o | o, r⟩
  · cases h
  · cases o with
    | deletePasskey owner id =>
      rcases r with e | _ | n
      · cases h
      · cases h
      · obtain rfl := Option.some.inj h
        exact ⟨owner, n, rfl⟩
    | _ => cases h

/-- The passkey that a login has verified an assertion with. -/
def loginWith : Event SiteOp SiteAns → Option String
  | ⟨.inl (.finishLogin _ _ _), .ok cred⟩ => some cred.id
  | _ => none

theorem event_of_loginWith {v : Event SiteOp SiteAns} {credID : String}
    (h : loginWith v = some credID) :
    ∃ user id assertion cred, v = ⟨.inl (.finishLogin user id assertion), .ok cred⟩ ∧
      cred.id = credID := by
  rcases v with ⟨o | o, r⟩
  · cases o with
    | finishLogin user id assertion =>
      rcases r with e | cred
      · cases h
      · exact ⟨user, id, assertion, cred, rfl, Option.some.inj h⟩
    | _ => cases h
  · cases h

/-- No row has the credential's id. -/
def Site.Without (credID : String) (s : Site) : Prop :=
  ∀ row ∈ s.world.passkeys.rows, row.credentialID ≠ credID

/-- A row with the id comes only with a call that stores it. -/
theorem without_step {ι : Type} {P : Params} {credID : String} {e : Entry ι Site SiteOp SiteAns}
    (hstep : ShelfStep P e.pre e.post (shelfAct e.event))
    (hnot : ∀ owner, ¬Stored owner credID e) (h : e.pre.Without credID) : e.post.Without credID := by
  intro row hrow
  rcases row_cases hstep hrow with hrow | ⟨name, hact⟩ | ⟨owner, id, credJSON, -, d, hd, -, rfl⟩
  · exact h row hrow
  · obtain ⟨p, hev⟩ := event_of_put hact
    exact fun hid => hnot row.ownerEmail ⟨row, name, p, hev, rfl, hid⟩
  · exact h d hd

/-- A delete that has found its row leaves no row with the id. -/
theorem without_deleted {P : Params} {R : Registration} {owner credID : String} {n : Nat} {s s' : Site}
    (h : siteSem P R (.inr (.deletePasskey owner credID)) s (.ok (n + 1)) s') : s'.Without credID := by
  obtain ⟨-, hx | ⟨e, he, -⟩⟩ := h
  · obtain ⟨hn, rfl⟩ := Prod.mk.inj hx
    have hpos : 0 < s.world.passkeys.rows.countP (·.isOf P owner credID) := by
      have : n + 1 = s.world.passkeys.count (·.isOf P owner credID) := Except.ok.inj hn
      rw [← Table.count, ← this]
      exact Nat.succ_pos n
    obtain ⟨d, hd, hof⟩ := List.countP_pos_iff.mp hpos
    intro row hrow hid
    obtain ⟨hrow, hkept⟩ := Table.mem_delete.mp hrow
    -- ids are unique in the table, so the row is the one that was found
    obtain rfl := Table.eq_of_key hrow hd
      (hid.trans (WebAuthnCredential.isOf_eq_true.mp hof).2.symm)
    rw [hof] at hkept
    cases hkept
  · cases he

section Runs

variable {ι : Type} [DecidableEq ι] {P : Params} {R : Registration} {reqs : ι → SiteRequest} {s : Site}
  {tr pre post : List (Entry ι Site SiteOp SiteAns)} {c : Conf ι Site SiteOp SiteAns SiteResp}

/-! ## Ceremonies in store -/

/-- A stored ceremony is never changed: from one call on, it is there or gone. -/
theorem ceremony_stays (hlib : Library P R) (hfresh : s.Fresh)
    (hrun : Run (siteSem P R) (s.open P R reqs) tr c) {e : Entry ι Site SiteOp SiteAns}
    (htr : tr = pre ++ e :: post) {id : String} {cer : Ceremony}
    (hcer : e.pre.world.ceremonies id = some cer) :
    ∀ z ∈ post, z.pre.world.ceremonies id = some cer ∨ z.pre.world.ceremonies id = none := by
  obtain ⟨c₁, hpre, hstate, -, hsem⟩ := hrun.cut htr
  have hinv := ceremonyInv_run hlib.uuid hfresh.ceremonies hpre
  rw [hstate] at hinv
  obtain ⟨n, hn, rfl⟩ := hinv.drawn id cer hcer
  -- an id that has been drawn is not drawn again, so no other ceremony gets it
  have hkept : ∀ {v : Event SiteOp SiteAns} {w w' : World}, CeremonyStep P R v w w' →
      (w.ceremonies (P.uuid n) = some cer ∨ w.ceremonies (P.uuid n) = none) ∧ n < w.fresh →
      (w'.ceremonies (P.uuid n) = some cer ∨ w'.ceremonies (P.uuid n) = none) ∧ n < w'.fresh := by
    intro v w w' hstep ⟨hw, hlt⟩
    refine ⟨?_, Nat.lt_of_lt_of_le hlt hstep.fresh⟩
    rcases hstep.entries (P.uuid n) with hsame | hnone | ⟨-, m, -, hm, hle, -, -⟩
    · rwa [hsame]
    · exact .inr hnone
    · exact absurd (hlib.uuid hm) (Nat.ne_of_lt (Nat.lt_of_lt_of_le hlt hle))
  have hafter := hrun.holds_after htr
    (I := fun s' : Site => (s'.world.ceremonies (P.uuid n) = some cer ∨
      s'.world.ceremonies (P.uuid n) = none) ∧ n < s'.world.fresh)
    (hkept (ceremonyStep hsem) ⟨.inl hcer, hn⟩) fun a x b hab _ hx => by
      have hmem : x ∈ tr := by simp [htr, hab]
      exact hkept (ceremonyStep (hrun.sem_of_mem hmem)) hx
  exact fun z hz => (hafter.2 z hz).1

/-- What a request has peeked at is what a call verifies, whichever comes first. -/
theorem peeked_of_proven (hlib : Library P R) (hfresh : s.Fresh)
    (hrun : Run (siteSem P R) (s.open P R reqs) tr c) {k v : Entry ι Site SiteOp SiteAns}
    (hk : k ∈ tr) (hv : v ∈ tr) {id payload : String} {cer : Ceremony}
    (hpeek : k.event = ⟨.inl (.peekLoginPayload id), some payload⟩)
    (hproven : provenCeremony v.event = some id) (hcer : v.pre.world.ceremonies id = some cer) :
    cer.payload = payload := by
  have hsem := hrun.sem_of_mem hk
  obtain ⟨kwho, kop, kans, kpre, kpost⟩ := k
  cases hpeek
  obtain ⟨cer', hcer', -, rfl⟩ := peekLoginPayload_answer hsem.1
  obtain ⟨a, b, htr⟩ := List.append_of_mem hk
  rw [htr] at hv
  rcases List.mem_append.mp hv with hv | hv
  · -- a verified ceremony is gone and does not come back
    obtain ⟨c₁, hpre, hstate, -⟩ := hrun.cut htr
    have hgone := ((ceremonyInv_run hlib.uuid hfresh.ceremonies hpre).spent v hv id hproven).1
    rw [hstate, hcer'] at hgone
    cases hgone
  rcases List.mem_cons.mp hv with rfl | hv
  · cases hproven
  · rcases ceremony_stays hlib hfresh hrun htr hcer' v hv with hsame | hnone
    · rw [hcer] at hsame
      rw [Option.some.inj hsame]
    · rw [hcer] at hnone
      cases hnone

/-! ## Stored records -/

/-- The credential that a login has verified, at the call that verified it. -/
theorem verified_at (hrun : Run (siteSem P R) (s.open P R reqs) tr c) {i : ι} {user : WebAuthnUser}
    {id assertion : String} {cred : Credential}
    (hv : ⟨.inl (.finishLogin user id assertion), .ok cred⟩ ∈ proj i tr) :
    ∃ v ∈ tr, v.who = i ∧ v.event = ⟨.inl (.finishLogin user id assertion), .ok cred⟩ ∧
      ∃ cer, v.pre.world.ceremonies id = some cer ∧
        P.waFinishLogin user cer.data assertion = some cred := by
  obtain ⟨a, s₁, s₂, b, htr, hsem⟩ := hrun.cut_of_proj hv
  obtain ⟨cer, hcer, -, hver⟩ := finishLogin_answer hsem.1
  have hmem : (⟨i, .inl (.finishLogin user id assertion), .ok cred, s₁, s₂⟩ :
      Entry ι Site SiteOp SiteAns) ∈ tr := by
    rw [htr]
    exact List.mem_append_right _ List.mem_cons_self
  exact ⟨_, hmem, rfl, rfl, cer, hcer, hver⟩

/-- The record a registration stores reads back. -/
theorem reads_stored (hlib : Library P R) (hrun : Run (siteSem P R) (s.open P R reqs) tr c)
    {i : ι} {req : SiteRequest} {row : WebAuthnCredential} {name : List UInt8}
    (hst : StoreGrounds P R req row name (proj i tr)) :
    ∃ cred, P.parseCredential row.credentialJSON = some cred ∧ cred.id = row.credentialID := by
  obtain ⟨ctx, id, given, response, user, cred, -, -, hfin, rfl, -, -⟩ := hst
  obtain ⟨a, s₁, s₂, b, -, hsem⟩ := hrun.cut_of_proj hfin
  obtain ⟨cer, -, hver⟩ := finishRegistration_answer hsem
  exact ⟨cred, hlib.readsRegistration user cer.data response cred hver, rfl⟩

/-- The record a login writes back reads back. -/
theorem reads_renewed (hlib : Library P R) (hrun : Run (siteSem P R) (s.open P R reqs) tr c)
    {i : ι} {req : Request} {owner credID credJSON : String}
    (hre : RenewGrounds P req owner credID credJSON (lefts (proj i tr))) :
    P.parseCredential credJSON = some ⟨credID, credJSON⟩ := by
  obtain ⟨ip, id, assertion, pendingID, pl, stored, -, -, -, -, -, -, hfin⟩ := hre
  obtain ⟨v, -, -, -, cer, -, hver⟩ := verified_at hrun (mem_lefts.mp hfin)
  exact hlib.readsLogin _ cer.data assertion _ hver

/-- **Every stored record reads back as the credential of its row**, in every run
from a server start. -/
theorem readable_run (hlib : Library P R) (hfresh : s.Fresh)
    (hreqs : ∀ i, (reqs i).handled = true) (hrun : Run (siteSem P R) (s.open P R reqs) tr c) :
    Readable P c.state := by
  refine hrun.invariant (I := fun _ s' => Readable P s') ?_ ?_
  · intro row hrow
    rw [show (s.open P R reqs).state.world.passkeys.rows = [] from hfresh.passkeys] at hrow
    cases hrow
  intro tr c e hpre hstate hcall hsem hinv row hrow
  obtain ⟨k, hk⟩ := hcall
  have hrule := passkeyRule_run hreqs hpre hk
  have hstep : ShelfStep P e.pre e.post (shelfAct e.event) := shelfStep hsem hrule.notByHand
  rcases row_cases hstep hrow with hrow | ⟨name, hact⟩ | ⟨owner, credID, credJSON, hact, d, -, hof, rfl⟩
  · exact hinv row hrow
  · obtain ⟨p, hev⟩ := event_of_put hact
    exact reads_stored hlib hpre (hrule.stores row name (congrArg Sigma.fst hev))
  · obtain ⟨breq, -, hre⟩ := hrule.renews owner credID credJSON (op_of_renew hact)
    exact ⟨_, reads_renewed hlib hpre hre, (WebAuthnCredential.isOf_eq_true.mp hof).2.symm⟩

/-- A verified passkey is one of the owner's rows, as the login has read them. -/
theorem row_of_verified (hlib : Library P R) (hfresh : s.Fresh)
    (hreqs : ∀ i, (reqs i).handled = true) (hrun : Run (siteSem P R) (s.open P R reqs) tr c)
    {i : ι} {owner id assertion : String} {stored : List WebAuthnCredential} {cred : Credential}
    (hlist : ⟨.inl (.listWebAuthn owner), .ok stored⟩ ∈ proj i tr)
    (hv : ⟨.inl (.finishLogin (P.userOf owner stored) id assertion), .ok cred⟩ ∈ proj i tr) :
    ∃ a l b, tr = a ++ l :: b ∧ l.who = i ∧ l.event = ⟨.inl (.listWebAuthn owner), .ok stored⟩ ∧
      ∃ row ∈ l.pre.world.passkeys.rows, P.ownerID row.ownerEmail = P.ownerID owner ∧
        row.credentialID = cred.id := by
  obtain ⟨v, -, -, -, cer, -, hver⟩ := verified_at hrun hv
  obtain ⟨-, known, hknown, hid⟩ := hlib.finishLogin _ cer.data assertion cred hver
  obtain ⟨row, hrow, hparse⟩ := List.mem_filterMap.mp hknown
  obtain ⟨a, s₁, s₂, b, htr, hsem⟩ := hrun.cut_of_proj hlist
  obtain ⟨c₁, hpre, hstate, -⟩ := hrun.cut htr
  have hread := readable_run hlib hfresh hreqs hpre
  rw [hstate] at hread
  rw [listWebAuthn_answer hsem.1] at hrow
  obtain ⟨hmem, howner⟩ := List.mem_filter.mp hrow
  obtain ⟨cred', hparse', hid'⟩ := hread row hmem
  obtain rfl := Option.some.inj (hparse.symm.trans hparse')
  exact ⟨a, _, b, htr, rfl, rfl, row, hmem, by simpa using howner, hid'.symm.trans hid⟩

/-! ## The session -/

/-- What is enrolled stays enrolled. -/
theorem Enrolled.append {owner credID id : String} {tr' : List (Entry ι Site SiteOp SiteAns)}
    (h : Enrolled P R reqs owner credID id tr) : Enrolled P R reqs owner credID id (tr ++ tr') := by
  obtain ⟨t₁, b, t₂, v, t₃, w, t₄, rfl, hrest⟩ := h
  exact ⟨t₁, b, t₂, v, t₃, w, t₄ ++ tr', by simp, hrest⟩

/-- What a passkey login has behind it when it creates a session. -/
theorem renewGrounds_of_session (hrun : Run (siteSem P R) (s.open P R reqs) tr c)
    {e : Entry ι Site SiteOp SiteAns} (htr : tr = pre ++ e :: post) {owner : String}
    (hev : openedFor e.event = some owner) {ip id assertion : String}
    (hreq : reqs e.who = .backend (.webAuthnLoginVerify ip id assertion)) :
    ∃ credID credJSON, RenewGrounds P (.webAuthnLoginVerify ip id assertion) owner credID credJSON
      (lefts (proj e.who pre)) := by
  have halong : Along
      (fun h o => ∃ o₁, o = .inl o₁ ∧ SessionRule P (.webAuthnLoginVerify ip id assertion) (lefts h) o₁)
      (fun _ _ => True) ((s.open P R reqs).procs e.who) [] := by
    rw [show (s.open P R reqs).procs e.who = (reqs e.who).prog P R from rfl, hreq]
    exact along_bind (Along.left (h := []) (along_passkeySession P ip id assertion))
      fun _ _ _ => trivial
  obtain ⟨o₁, ho, hsession⟩ := hrun.rule_at htr halong
  obtain ⟨sess, dek, hop, rfl⟩ := op_of_openedFor hev
  obtain rfl := Sum.inl.inj (ho.symm.trans hop)
  exact hsession sess dek rfl

/-- **A passkey login goes back to an enrolment.** From a server start, over any
requests in any order and with any statement failing: when a passkey login
creates a session, its request has read a live pending login of the session's
owner; the ceremony it names was begun for the same owner, by a request that
named the same pending login; and its assertion was verified with a passkey that
was stored for the same owner and enrolled by a session of that owner. -/
theorem passkey_session (hlib : Library P R) (hfresh : s.Fresh)
    (hreqs : ∀ i, (reqs i).handled = true) (hrun : Run (siteSem P R) (s.open P R reqs) tr c)
    {e : Entry ι Site SiteOp SiteAns} (htr : tr = pre ++ e :: post) {owner : String}
    (hev : openedFor e.event = some owner) {ip id assertion : String}
    (hreq : reqs e.who = .backend (.webAuthnLoginVerify ip id assertion)) :
    (∃ pendingID, ReadsPending P e.who pendingID owner pre ∧
      LoginBegun P R reqs pendingID owner id pre) ∧
    ∃ credID holder ceremonyID, VerifiedBy P e.who id assertion owner credID pre ∧
      P.ownerID holder = P.ownerID owner ∧ Enrolled P R reqs holder credID ceremonyID pre := by
  obtain ⟨c₁, hpre, -⟩ := hrun.cut htr
  obtain ⟨credID, credJSON, ip', id', assertion', pendingID, pl, stored, heq, hne, hpeek, hget, howner,
    hlist, hfin⟩ := renewGrounds_of_session hrun htr hev hreq
  obtain ⟨rfl, rfl, rfl⟩ := Request.webAuthnLoginVerify.inj heq
  rw [mem_lefts] at hpeek hget hlist hfin
  obtain ⟨v, hv, hvwho, hvev, cer, hcer, hver⟩ := verified_at hpre hfin
  have hproven : provenCeremony v.event = some id := by
    rw [hvev]
    rfl
  refine ⟨⟨pendingID, ?_, ?_⟩, ?_⟩
  · obtain ⟨a, s₁, s₂, b, ht, hsem⟩ := hpre.cut_of_proj hget
    obtain ⟨hstored, hlive⟩ := pendingGet_answer hsem.1
    have hmem : (⟨e.who, .inl (.pendingGet pendingID), some pl, s₁, s₂⟩ :
        Entry ι Site SiteOp SiteAns) ∈ pre := by
      rw [ht]
      exact List.mem_append_right _ List.mem_cons_self
    exact ⟨_, hmem, rfl, pl, rfl, hstored, hlive, howner⟩
  · obtain ⟨k, hk, -, hkev⟩ := mem_proj.mp hpeek
    obtain ⟨t, t', ht⟩ := List.append_of_mem hv
    have huser : ∀ cer, v.pre.world.ceremonies id = some cer →
        cer.data.userID = (P.userOf owner stored).id := by
      intro cer' hcer'
      obtain rfl := Option.some.inj (hcer.symm.trans hcer')
      exact (hlib.finishLogin _ _ _ _ hver).1
    obtain ⟨t₁, b, t₂, cer', rfl, hcer', hbegin, hbegan⟩ :=
      begun_of_proven hlib hfresh hreqs hpre ht hproven huser
    have hpayload : cer'.payload = pendingID :=
      peeked_of_proven hlib hfresh hpre hk hv hkev hproven hcer'
    refine ⟨t₁, b, t₂ ++ v :: t', by simp [ht], hbegan, ?_⟩
    rcases hbegin with ⟨user, n, hbev, -⟩ | ⟨user, n, hbev, -, hempty⟩
    · have hop : b.op = .inl (.beginLogin user cer'.payload) := congrArg Sigma.fst hbev
      obtain ⟨-, hgrounds⟩ := hbegan
      rw [hop, hpayload] at hgrounds
      obtain ⟨ip', -, hbreq, -⟩ := hgrounds
      exact ⟨ip', hbreq⟩
    · -- a registration's payload is empty, and no pending login has the empty id
      exact absurd (hpayload.symm.trans hempty) hne
  · obtain ⟨a, l, b, ht, -, -, row, hrow, howns, hid⟩ := row_of_verified hlib hfresh hreqs hpre hlist hfin
    obtain ⟨c₂, hbefore, hstate, -⟩ := hpre.cut ht
    rw [← hstate] at hrow
    obtain ⟨ceremonyID, henrolled⟩ := enrolled_of_row hlib hfresh hreqs hbefore hrow
    refine ⟨credID, row.ownerEmail, ceremonyID, ⟨v, hv, hvwho, stored, credJSON, hvev⟩, howns, ?_⟩
    rw [ht]
    rw [hid] at henrolled
    exact henrolled.append

/-- A request of the backend asks for a session once. -/
theorem session_once (hrun : Run (siteSem P R) (s.open P R reqs) tr c)
    {x y : Entry ι Site SiteOp SiteAns} (htr : tr = pre ++ x :: post) (hy : y ∈ pre)
    (hwho : y.who = x.who) {req : Request} (hreq : reqs x.who = .backend req)
    {sess sess' : Session} {dek dek' : Nat} (hx : x.op = .inl (.sessionCreate sess dek)) :
    y.op ≠ .inl (.sessionCreate sess' dek') := by
  intro hop
  have halong : Along (fun h o => ∃ o₁, o = .inl o₁ ∧ PathRule P req (lefts h) o₁)
      (fun _ _ => True) ((s.open P R reqs).procs x.who) [] := by
    rw [show (s.open P R reqs).procs x.who = (reqs x.who).prog P R from rfl, hreq]
    exact along_bind (Along.left (h := []) (pathRule_prog P req)) fun _ _ _ => trivial
  obtain ⟨o₁, ho, hrule⟩ := hrun.rule_at htr halong
  obtain rfl := Sum.inl.inj (ho.symm.trans hx)
  have hno := (hrule.session sess dek rfl).2
  have hmem : y.event ∈ proj x.who pre := mem_proj.mpr ⟨y, hy, hwho, rfl⟩
  obtain ⟨ywho, yop, yans, ypre, ypost⟩ := y
  obtain rfl := hop
  exact hno _ (mem_lefts.mpr hmem) rfl

/-- The call of a passkey login that verified its ceremony. -/
theorem proven_of_session (hrun : Run (siteSem P R) (s.open P R reqs) tr c)
    {e : Entry ι Site SiteOp SiteAns} (he : e ∈ tr) {owner : String}
    (hev : openedFor e.event = some owner) {ip id assertion : String}
    (hreq : reqs e.who = .backend (.webAuthnLoginVerify ip id assertion)) :
    ∃ v ∈ tr, v.who = e.who ∧ provenCeremony v.event = some id := by
  obtain ⟨a, b, htr⟩ := List.append_of_mem he
  obtain ⟨credID, credJSON, ip', id', assertion', pendingID, pl, stored, heq, -, -, -, -, -, hfin⟩ :=
    renewGrounds_of_session hrun htr hev hreq
  obtain ⟨rfl, rfl, rfl⟩ := Request.webAuthnLoginVerify.inj heq
  obtain ⟨v, hv, hwho, hvev⟩ := mem_proj.mp (mem_lefts.mp hfin)
  refine ⟨v, ?_, hwho, ?_⟩
  · rw [htr]
    exact List.mem_append_left _ hv
  · rw [hvev]
    rfl

/-- **One ceremony, one session**: of all the passkey logins that name a
ceremony, in whatever order they run, one creates a session, and it creates one. -/
theorem ceremony_opens_once (hlib : Library P R) (hfresh : s.Fresh)
    (hrun : Run (siteSem P R) (s.open P R reqs) tr c) {e e' : Entry ι Site SiteOp SiteAns}
    (he : e ∈ tr) (he' : e' ∈ tr) {owner owner' : String} (hev : openedFor e.event = some owner)
    (hev' : openedFor e'.event = some owner')
    {ip ip' id assertion assertion' : String}
    (hreq : reqs e.who = .backend (.webAuthnLoginVerify ip id assertion))
    (hreq' : reqs e'.who = .backend (.webAuthnLoginVerify ip' id assertion')) : e' = e := by
  obtain ⟨v, hv, hwho, hproven⟩ := proven_of_session hrun he hev hreq
  obtain ⟨v', hv', hwho', hproven'⟩ := proven_of_session hrun he' hev' hreq'
  have hsame : e'.who = e.who := by
    rw [← hwho, ← hwho', proven_unique hlib.uuid hfresh.ceremonies hrun hv hv' hproven hproven']
  obtain ⟨sess, dek, hop, -⟩ := op_of_openedFor hev
  obtain ⟨sess', dek', hop', -⟩ := op_of_openedFor hev'
  obtain ⟨a, b, htr⟩ := List.append_of_mem he
  rw [htr] at he'
  rcases List.mem_append.mp he' with hmem | hmem
  · exact absurd hop' (session_once hrun htr hmem hsame hreq hop)
  rcases List.mem_cons.mp hmem with rfl | hmem
  · rfl
  · obtain ⟨m, m', rfl⟩ := List.append_of_mem hmem
    have hcut : tr = (a ++ e :: m) ++ e' :: m' := by simp [htr]
    exact absurd hop (session_once hrun hcut (by simp) hsame.symm hreq' hop')

/-! ## Revocation -/

/-- **A deleted passkey opens nothing.** Once a delete has found a passkey, and
as long as no registration stores it anew, no login that arrives after the
delete verifies an assertion with it. -/
theorem revoked (hlib : Library P R) (hfresh : s.Fresh)
    (hreqs : ∀ i, (reqs i).handled = true) (hrun : Run (siteSem P R) (s.open P R reqs) tr c)
    {d : Entry ι Site SiteOp SiteAns} (htr : tr = pre ++ d :: post) {credID : String}
    (hdel : removedBy d.event = some credID)
    (hnot : ∀ w ∈ post, ∀ owner, ¬Stored owner credID w) {v : Entry ι Site SiteOp SiteAns}
    (hv : v ∈ tr) (harrives : proj v.who pre = []) : loginWith v.event ≠ some credID := by
  intro hlogin
  obtain ⟨user, id, assertion, cred, hvev, hcred⟩ := event_of_loginWith hlogin
  have hfin : ⟨.inl (.finishLogin user id assertion), .ok cred⟩ ∈ proj v.who tr :=
    mem_proj.mpr ⟨v, hv, rfl, hvev⟩
  obtain ⟨owner, n, hdev⟩ := event_of_removedBy hdel
  have hafter : ∀ z ∈ post, z.pre.Without credID := by
    refine (hrun.holds_after htr ?_ fun a x b hab _ hx => ?_).2
    · have hsem := hrun.sem_of_mem (e := d) (by simp [htr])
      obtain ⟨dwho, dop, dans, dpre, dpost⟩ := d
      cases hdev
      exact without_deleted hsem
    · have hcut : tr = (pre ++ d :: a) ++ x :: b := by simp [htr, hab]
      obtain ⟨c₁, hpre, -, ⟨k, hk⟩, hsem⟩ := hrun.cut hcut
      exact without_step (shelfStep hsem (passkeyRule_run hreqs hpre hk).notByHand)
        (hnot x (by simp [hab])) hx
  obtain ⟨a, s₁, s₂, b, ht, -⟩ := hrun.cut_of_proj hfin
  obtain ⟨owner', stored, hlist, rfl⟩ :=
    (rule_of_cut hreqs hrun ht).finishes user id assertion rfl
  have hlist : ⟨.inl (.listWebAuthn owner'), .ok stored⟩ ∈ proj v.who tr := by
    rw [ht, proj_append]
    exact List.mem_append_left _ hlist
  obtain ⟨t, l, t', hcut, hwho, hlev, row, hrow, -, hid⟩ :=
    row_of_verified hlib hfresh hreqs hrun hlist hfin
  have hl : l ∈ pre ++ d :: post := by
    rw [← htr, hcut]
    exact List.mem_append_right _ List.mem_cons_self
  rcases List.mem_append.mp hl with hl | hl
  · -- the login had not arrived
    have hmem : l.event ∈ proj v.who pre := mem_proj.mpr ⟨l, hl, hwho, rfl⟩
    rw [harrives] at hmem
    cases hmem
  rcases List.mem_cons.mp hl with rfl | hl
  · rw [hlev] at hdev
    cases hdev
  · exact hafter l hl row hrow (hid.trans hcred)

end Runs

/-! ## A visit -/

/-- The session of a visit. -/
theorem passkey_session_visit :
    ∃ pre e post, visit.1 = pre ++ e :: post ∧ openedFor e.event = some "a@x" ∧ e.who = 8 ∧
      (∃ pendingID, ReadsPending .keyed e.who pendingID "a@x" pre ∧
        LoginBegun .keyed .sample visits pendingID "a@x" "uuuuuuu" pre) ∧
      ∃ credID holder ceremonyID, VerifiedBy .keyed e.who "uuuuuuu" "spare" "a@x" credID pre ∧
        Params.keyed.ownerID holder = Params.keyed.ownerID "a@x" ∧
        Enrolled .keyed .sample visits holder credID ceremonyID pre := by
  have hopened : ∃ e ∈ visit.1, openedFor e.event = some "a@x" ∧ e.who = 8 := by decide +kernel
  obtain ⟨e, he, hev, hwho⟩ := hopened
  have hreq : visits e.who = .backend (.webAuthnLoginVerify "ip" "uuuuuuu" "spare") := by
    rw [hwho]
    rfl
  obtain ⟨pre, post, htr⟩ := List.append_of_mem he
  exact ⟨pre, e, post, htr, hev, hwho,
    passkey_session library_keyed fresh_empty handled_visits run_visit htr hev hreq⟩

/-- It is the only one of its ceremony. -/
theorem ceremony_opens_once_visit :
    ∃ e ∈ visit.1, openedFor e.event = some "a@x" ∧
      ∀ e' ∈ visit.1, e'.who = 8 → openedFor e'.event = some "a@x" → e' = e := by
  have hopened : ∃ e ∈ visit.1, openedFor e.event = some "a@x" ∧ e.who = 8 := by decide +kernel
  obtain ⟨e, he, hev, hwho⟩ := hopened
  have hreq : ∀ {i : Nat}, i = 8 → visits i = .backend (.webAuthnLoginVerify "ip" "uuuuuuu" "spare") := by
    rintro i rfl
    rfl
  refine ⟨e, he, hev, fun e' he' hwho' hev' => ?_⟩
  exact ceremony_opens_once library_keyed fresh_empty run_visit he he' hev hev' (hreq hwho) (hreq hwho')

/-- The login of a visit comes after the delete of one passkey: it verifies with the other, and
with the deleted one at no step. -/
theorem revoked_visit :
    ∃ pre d post, visit.1 = pre ++ d :: post ∧ removedBy d.event = some "key" ∧
      (∃ v ∈ post, v.who = 8 ∧ loginWith v.event = some "spare") ∧
      ∀ v ∈ visit.1, v.who = 8 → loginWith v.event ≠ some "key" := by
  have hremoved : (visit.1[11]?.bind fun d => removedBy d.event) = some "key" := by decide +kernel
  obtain ⟨d, hd, hdel⟩ := Option.bind_eq_some_iff.mp hremoved
  obtain ⟨hlength, rfl⟩ := List.getElem?_eq_some_iff.mp hd
  have htr : visit.1 = visit.1.take 11 ++ visit.1[11] :: visit.1.drop 12 := by
    rw [← List.drop_eq_getElem_cons hlength, List.take_append_drop]
  have hstores : ∀ w ∈ visit.1.drop 12, storesPasskey w.op = false := by decide +kernel
  have hbefore : ∀ w ∈ visit.1.take 11, w.who ≠ 8 := by decide +kernel
  have hspare : ∃ v ∈ visit.1.drop 12, v.who = 8 ∧ loginWith v.event = some "spare" := by
    decide +kernel
  refine ⟨_, _, _, htr, hdel, hspare, fun v hv hwho => ?_⟩
  refine revoked library_keyed fresh_empty handled_visits run_visit htr hdel ?_ hv ?_
  · rintro w hw owner ⟨c, name, p, hev, -, -⟩
    have hop : w.op = .inr (.createPasskey c name) := congrArg Sigma.fst hev
    have hnone := hstores w hw
    rw [hop] at hnone
    cases hnone
  · refine List.eq_nil_iff_forall_not_mem.mpr fun x hx => ?_
    obtain ⟨w, hw, hwwho, -⟩ := mem_proj.mp hx
    exact hbefore w hw (hwwho.trans hwho)

end E2Mail.Backend
