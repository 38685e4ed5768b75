import E2Mail.Backend.Passkeys

/-!
# One ceremony, one verification

A ceremony is begun by a login or by a registration and verified by a finishing
call of either kind: the two share one store, and `Take` does not ask which of
them began it. What protects a ceremony is that it is taken out of the store,
under the store's lock, before anything is verified, and that its id is never
drawn again.

* `CeremonyStep` — everything a call can do to the store;
* `ceremony_once` — in every run, by whatever programs, a ceremony that is
  verified was begun before, has not expired, and is verified once: by a login
  or by a registration, not by both.
-/

namespace E2Mail.Backend

open Lib

variable {P : Params} {R : Registration}

/-! ## Beginning and verifying -/

/-- The call has begun the ceremony `c` and answered its id. -/
def Begins (P : Params) (R : Registration) (v : Event SiteOp SiteAns) (id : String)
    (c : Ceremony) : Prop :=
  (∃ user n, v = ⟨.inl (.beginLogin user c.payload), .ok id⟩ ∧
    P.waBeginLogin user n = .ok c.data) ∨
  ∃ user n, v = ⟨.inr (.beginRegistration user), .ok id⟩ ∧
    R.waBeginRegistration user n = .ok c.data ∧ c.payload = ""

/-- The ceremony a call has verified. -/
def provenCeremony : Event SiteOp SiteAns → Option String
  | ⟨.inl (.finishLogin _ id _), .ok _⟩ => some id
  | ⟨.inr (.finishRegistration _ id _), .ok _⟩ => some id
  | _ => none

/-! ## One call -/

/-- Calls only draw from the random supply. -/
theorem exec_fresh (P : Params) (o : Op) (w : World) : w.fresh ≤ (exec P o w).2.fresh := by
  by_cases hread : o.isRead = true
  · rw [exec_read hread]
  cases o with
  | createUserCredential c =>
    simp only [exec, World.createUserCredential]
    split
    · exact Nat.le_refl _
    · split <;> exact Nat.le_refl _
  | updateUserCredential c =>
    simp only [exec, World.updateUserCredential]
    split <;> exact Nat.le_refl _
  | saveTwoFA t =>
    simp only [exec, World.saveTwoFA]
    split <;> exact Nat.le_refl _
  | createWebAuthn c =>
    simp only [exec, World.createWebAuthnCredential]
    split
    · exact Nat.le_refl _
    · split <;> exact Nat.le_refl _
  | createAccount a dek =>
    have hdrawn : w.fresh ≤ (if a.id = "" then { w with fresh := w.fresh + 1 } else w).fresh := by
      split
      · exact Nat.le_succ _
      · exact Nat.le_refl _
    simp only [exec, World.createAccount]
    split
    · exact hdrawn
    · split <;> exact hdrawn
  | updateAccount a dek =>
    simp only [exec, World.updateAccount]
    split <;> exact Nat.le_refl _
  | pendingGet id =>
    simp only [exec, World.pendingGet]
    split
    · exact Nat.le_refl _
    · split <;> exact Nat.le_refl _
  | pendingMarkFailed id =>
    simp only [exec, World.pendingMarkFailed]
    split <;> exact Nat.le_refl _
  | beginLogin user payload =>
    simp only [exec, World.beginLogin]
    split
    · exact Nat.le_succ _
    · exact Nat.le_add_right _ _
  | finishLogin user id assertion =>
    simp only [exec, World.finishLogin]
    split
    · exact Nat.le_refl _
    · split
      · exact Nat.le_refl _
      · split <;> exact Nat.le_refl _
  | sessionCreate sess dek =>
    simp only [exec, World.sessionCreate]
    split
    · exact Nat.le_succ _
    · exact Nat.le_refl _
  | generateSalt => exact Nat.le_succ _
  | generateDEK => exact Nat.le_succ _
  | encrypt key text => exact Nat.le_succ _
  | wrapDEK key dek => exact Nat.le_succ _
  | pendingCreate pl => exact Nat.le_succ _
  | deleteTwoFA owner => simp only [exec, World.deleteTwoFA, Nat.le_refl]
  | _ => first | exact absurd rfl hread | exact Nat.le_refl _

theorem sem_fresh {o : Op} {w w' : World} {r : Ans o} (h : sem P o w r w') : w.fresh ≤ w'.fresh := by
  rcases sem_cases h with ⟨-, rfl⟩ | ⟨e, -, rfl⟩
  · exact exec_fresh P o w
  · cases o <;> exact Nat.le_refl _

/-- What a call can do to the store: an entry stays, is taken out, or is new
under an id drawn by the call; and the ceremony it verifies is taken out. -/
structure CeremonyStep (P : Params) (R : Registration) (v : Event SiteOp SiteAns)
    (w w' : World) : Prop where
  fresh : w.fresh ≤ w'.fresh
  entries : ∀ id, w'.ceremonies id = w.ceremonies id ∨ w'.ceremonies id = none ∨
    ∃ c n, w'.ceremonies id = some c ∧ id = P.uuid n ∧ w.fresh ≤ n ∧ n < w'.fresh ∧
      Begins P R v id c
  proven : ∀ id, provenCeremony v = some id →
    ∃ c, w.ceremonies id = some c ∧ c.expired w.now = false ∧ w'.ceremonies id = none

/-- A call that leaves the store alone. -/
theorem CeremonyStep.same {v : Event SiteOp SiteAns} {w w' : World} (hfresh : w.fresh ≤ w'.fresh)
    (hc : w'.ceremonies = w.ceremonies) (hv : provenCeremony v = none) : CeremonyStep P R v w w' where
  fresh := hfresh
  entries id := .inl (congrFun hc id)
  proven id hid := by
    rw [hv] at hid
    cases hid

/-- A call that begins a ceremony. -/
theorem CeremonyStep.begin {v : Event SiteOp SiteAns} {w w' : World} {c : Ceremony}
    (hfresh : w'.fresh = w.fresh + 2)
    (hc : w'.ceremonies = Function.update w.ceremonies (P.uuid (w.fresh + 1)) (some c))
    (hbegin : Begins P R v (P.uuid (w.fresh + 1)) c) (hv : provenCeremony v = none) :
    CeremonyStep P R v w w' where
  fresh := by omega
  entries id := by
    by_cases hid : id = P.uuid (w.fresh + 1)
    · subst hid
      refine .inr (.inr ⟨c, w.fresh + 1, ?_, rfl, by omega, by omega, hbegin⟩)
      rw [hc, Function.update_self]
    · rw [hc, Function.update_of_ne hid]
      exact .inl rfl
  proven id hid := by
    rw [hv] at hid
    cases hid

/-- A call that takes a ceremony, and verifies none unless the one taken. -/
theorem CeremonyStep.take {v : Event SiteOp SiteAns} {w w' : World} {taken : String} {c : Ceremony}
    (hfresh : w'.fresh = w.fresh) (hw : w.ceremonies taken = some c)
    (hc : w'.ceremonies = Function.update w.ceremonies taken none)
    (hv : ∀ id, provenCeremony v = some id → id = taken ∧ c.expired w.now = false) :
    CeremonyStep P R v w w' where
  fresh := Nat.le_of_eq hfresh.symm
  entries id := by
    by_cases hid : id = taken
    · rw [hc, hid, Function.update_self]
      exact .inr (.inl rfl)
    · rw [hc, Function.update_of_ne hid]
      exact .inl rfl
  proven id hid := by
    obtain ⟨rfl, hexp⟩ := hv id hid
    exact ⟨c, hw, hexp, by rw [hc, Function.update_self]⟩

theorem ceremonyStep_beginLogin (user : WebAuthnUser) (payload : String) (w : World) :
    CeremonyStep P R ⟨.inl (.beginLogin user payload), (w.beginLogin P user payload).1⟩ w
      (w.beginLogin P user payload).2 := by
  rw [World.beginLogin]
  rcases hbegin : P.waBeginLogin user w.fresh with e | data
  · exact .same (Nat.le_succ _) rfl rfl
  · exact .begin rfl rfl (.inl ⟨user, w.fresh, rfl, hbegin⟩) rfl

theorem ceremonyStep_beginRegistration (user : WebAuthnUser) (w : World) :
    CeremonyStep P R ⟨.inr (.beginRegistration user), (w.beginRegistration P R user).1⟩ w
      (w.beginRegistration P R user).2 := by
  rw [World.beginRegistration]
  rcases hbegin : R.waBeginRegistration user w.fresh with e | data
  · exact .same (Nat.le_succ _) rfl rfl
  · exact .begin rfl rfl (.inr ⟨user, w.fresh, rfl, hbegin, rfl⟩) rfl

theorem ceremonyStep_finishLogin (user : WebAuthnUser) (id assertion : String) (w : World) :
    CeremonyStep P R ⟨.inl (.finishLogin user id assertion), (w.finishLogin P user id assertion).1⟩ w
      (w.finishLogin P user id assertion).2 := by
  rw [World.finishLogin]
  rcases hc : w.ceremonies id with _ | c
  · exact .same (Nat.le_refl _) rfl rfl
  · dsimp only
    split
    · exact .take rfl hc rfl fun _ h => by cases h
    · rename_i hexp
      rcases P.waFinishLogin user c.data assertion with _ | cred
      · exact .take rfl hc rfl fun _ h => by cases h
      · exact .take rfl hc rfl fun _ h => ⟨(Option.some.inj h).symm, by simpa using hexp⟩

theorem ceremonyStep_finishRegistration (user : WebAuthnUser) (id response : String) (w : World) :
    CeremonyStep P R
      ⟨.inr (.finishRegistration user id response), (w.finishRegistration R user id response).1⟩ w
      (w.finishRegistration R user id response).2 := by
  rw [World.finishRegistration]
  rcases hc : w.ceremonies id with _ | c
  · exact .same (Nat.le_refl _) rfl rfl
  · dsimp only
    split
    · exact .take rfl hc rfl fun _ h => by cases h
    · rename_i hexp
      rcases R.waFinishRegistration user c.data response with _ | cred
      · exact .take rfl hc rfl fun _ h => by cases h
      · exact .take rfl hc rfl fun _ h => ⟨(Option.some.inj h).symm, by simpa using hexp⟩

/-- The cleaner takes entries out and verifies none. -/
theorem ceremonyStep_sweep (w : World) :
    CeremonyStep P R ⟨.inr .sweepCeremonies, ()⟩ w w.sweepCeremonies where
  fresh := Nat.le_refl _
  entries id := by
    have hswept : w.sweepCeremonies.ceremonies id =
        (w.ceremonies id).filter fun c => !c.expired w.now := rfl
    rw [hswept]
    rcases w.ceremonies id with _ | c
    · exact .inl rfl
    · rw [Option.filter_some]
      split
      · exact .inl rfl
      · exact .inr (.inl rfl)
  proven id hid := nomatch hid

theorem createPasskey_world (c : WebAuthnCredential) (name : List UInt8) (s : Site) :
    (s.createPasskey c name).2.world = (s.world.createWebAuthnCredential c).2 := by
  rw [Site.createPasskey]
  rcases hc : s.world.createWebAuthnCredential c with ⟨e | ⟨⟩, w⟩
  · rw [World.createWebAuthnCredential] at hc
    split at hc
    · exact congrArg Prod.snd hc
    · split at hc
      · exact congrArg Prod.snd hc
      · cases hc
  · rfl

theorem ceremonyStep_key {o : KeyOp} {s s' : Site} {r : KeyAns o}
    (h : siteSem P R (.inr o) s r s') : CeremonyStep P R ⟨.inr o, r⟩ s.world s'.world := by
  obtain ⟨-, h | ⟨e, he, rfl⟩⟩ := h
  · cases o with
    | beginRegistration user =>
      cases h
      exact ceremonyStep_beginRegistration user s.world
    | finishRegistration user id response =>
      cases h
      exact ceremonyStep_finishRegistration user id response s.world
    | createPasskey c name =>
      obtain ⟨-, rfl⟩ := Prod.mk.inj h
      have hframe := createWebAuthnCredential_frame c s.world
      have hfresh := exec_fresh P (.createWebAuthn c) s.world
      have hworld := createPasskey_world c name s
      refine .same ?_ ?_ rfl
      · exact hfresh.trans (Nat.le_of_eq (congrArg World.fresh hworld).symm)
      · exact (congrArg World.ceremonies hworld).trans (hframe.ceremonies nofun)
    | renamePasskey owner credID name =>
      obtain ⟨-, rfl⟩ := Prod.mk.inj h
      have hworld : (s.renamePasskey P owner credID name).2.world = s.world := by
        rw [Site.renamePasskey]
        split <;> rfl
      exact .same (Nat.le_of_eq (congrArg World.fresh hworld).symm)
        (congrArg World.ceremonies hworld) rfl
    | deletePasskey owner credID =>
      obtain ⟨-, rfl⟩ := Prod.mk.inj h
      exact .same (Nat.le_refl _) rfl rfl
    | listPasskeys owner =>
      obtain ⟨-, rfl⟩ := Prod.mk.inj h
      exact .same (Nat.le_refl _) rfl rfl
    | sweepCeremonies =>
      cases h
      exact ceremonyStep_sweep s.world
  · refine .same (Nat.le_refl _) rfl ?_
    cases o with
    | finishRegistration user id response => cases he
    | _ => rfl

theorem ceremonyStep_backend {o : Op} {s s' : Site} {r : Ans o}
    (h : siteSem P R (.inl o) s r s') : CeremonyStep P R ⟨.inl o, r⟩ s.world s'.world := by
  have hsem : sem P o s.world r s'.world := h.1
  have hframe := sem_frame hsem
  have hfresh := sem_fresh hsem
  have hfault : ∀ e, failWith e o = some r → s'.world = afterFailure o s.world →
      o.part = .ceremonies → CeremonyStep P R ⟨.inl o, r⟩ s.world s'.world := by
    intro e he hw hpart
    rw [hw]
    cases o with
    | beginLogin user payload => exact .same (Nat.le_refl _) rfl rfl
    | finishLogin user id assertion =>
      cases he
      exact .same (Nat.le_refl _) rfl rfl
    | peekLoginPayload id => cases he
    | _ => cases hpart
  rcases sem_cases hsem with ⟨hr, hw⟩ | ⟨e, he, hw⟩
  · cases o with
    | beginLogin user payload =>
      rw [hr, hw]
      exact ceremonyStep_beginLogin user payload s.world
    | finishLogin user id assertion =>
      rw [hr, hw]
      exact ceremonyStep_finishLogin user id assertion s.world
    | peekLoginPayload id =>
      rw [hw]
      exact .same (Nat.le_refl _) rfl rfl
    | _ => exact .same hfresh (hframe.ceremonies nofun) rfl
  · by_cases hpart : o.part = .ceremonies
    · exact hfault e he hw hpart
    · refine .same hfresh (hframe.ceremonies hpart) ?_
      cases o with
      | finishLogin user id assertion => exact absurd rfl hpart
      | _ => rfl

/-- **Everything a call can do to the ceremonies**, of either signature. -/
theorem ceremonyStep {o : SiteOp} {s s' : Site} {r : SiteAns o} (h : siteSem P R o s r s') :
    CeremonyStep P R ⟨o, r⟩ s.world s'.world := by
  cases o with
  | inl o => exact ceremonyStep_backend h
  | inr o => exact ceremonyStep_key h

/-! ## Runs -/

section Runs

variable {ι : Type} [DecidableEq ι] {α : Type}

/-- A stored ceremony was begun in the run, and one that was verified is gone
and never comes back, since its id has been drawn. -/
structure CeremonyInv (P : Params) (R : Registration) (tr : List (Entry ι Site SiteOp SiteAns))
    (w : World) : Prop where
  begun : ∀ id c, w.ceremonies id = some c → ∃ e ∈ tr, Begins P R e.event id c
  drawn : ∀ id c, w.ceremonies id = some c → ∃ n < w.fresh, id = P.uuid n
  spent : ∀ e ∈ tr, ∀ id, provenCeremony e.event = some id →
    w.ceremonies id = none ∧ ∃ n < w.fresh, id = P.uuid n

variable {tr : List (Entry ι Site SiteOp SiteAns)}

omit [DecidableEq ι] in
theorem CeremonyInv.step (huuid : Function.Injective P.uuid) {e : Entry ι Site SiteOp SiteAns}
    (hinv : CeremonyInv P R tr e.pre.world) (hstep : CeremonyStep P R e.event e.pre.world e.post.world) :
    CeremonyInv P R (tr ++ [e]) e.post.world where
  begun id c hc := by
    rcases hstep.entries id with hsame | hnone | ⟨c', n, hnew, -, -, -, hbegin⟩
    · obtain ⟨b, hb, hbegin⟩ := hinv.begun id c (hsame.symm.trans hc)
      exact ⟨b, List.mem_append_left _ hb, hbegin⟩
    · rw [hnone] at hc
      cases hc
    · obtain rfl := Option.some.inj (hnew.symm.trans hc)
      exact ⟨e, by simp, hbegin⟩
  drawn id c hc := by
    rcases hstep.entries id with hsame | hnone | ⟨c', n, -, hid, -, hn, -⟩
    · obtain ⟨n, hn, hid⟩ := hinv.drawn id c (hsame.symm.trans hc)
      exact ⟨n, Nat.lt_of_lt_of_le hn hstep.fresh, hid⟩
    · rw [hnone] at hc
      cases hc
    · exact ⟨n, hn, hid⟩
  spent x hx id hid := by
    rcases List.mem_append.mp hx with hx | hx
    · obtain ⟨hnone, n, hn, rfl⟩ := hinv.spent x hx id hid
      refine ⟨?_, n, Nat.lt_of_lt_of_le hn hstep.fresh, rfl⟩
      rcases hstep.entries (P.uuid n) with hsame | hgone | ⟨c, m, -, hm, hle, -, -⟩
      · exact hsame.trans hnone
      · exact hgone
      · -- an id drawn before is not drawn again
        exact absurd (huuid hm) (Nat.ne_of_lt (Nat.lt_of_lt_of_le hn hle))
    · obtain rfl := List.mem_singleton.mp hx
      obtain ⟨c, hc, -, hgone⟩ := hstep.proven id hid
      obtain ⟨n, hn, hdrawn⟩ := hinv.drawn id c hc
      exact ⟨hgone, n, Nat.lt_of_lt_of_le hn hstep.fresh, hdrawn⟩

variable {c₀ c : Conf ι Site SiteOp SiteAns α}

theorem ceremonyInv_run (huuid : Function.Injective P.uuid)
    (hnone : ∀ id, c₀.state.world.ceremonies id = none) (hrun : Run (siteSem P R) c₀ tr c) :
    CeremonyInv P R tr c.state.world := by
  have hnot : ∀ id cer, c₀.state.world.ceremonies id ≠ some cer := by
    intro id cer hcer
    rw [hnone id] at hcer
    cases hcer
  refine hrun.invariant (I := fun tr s => CeremonyInv P R tr s.world) ⟨?_, ?_, ?_⟩
    fun tr c e _ _ _ hsem hinv => hinv.step huuid (ceremonyStep hsem)
  · exact fun id cer hcer => absurd hcer (hnot id cer)
  · exact fun id cer hcer => absurd hcer (hnot id cer)
  · exact fun e he => absurd he List.not_mem_nil

variable {pre post : List (Entry ι Site SiteOp SiteAns)} {e : Entry ι Site SiteOp SiteAns} {id : String}

/-- A ceremony that a call verifies was begun before, and has not expired. -/
theorem ceremony_begun (huuid : Function.Injective P.uuid)
    (hnone : ∀ id, c₀.state.world.ceremonies id = none) (hrun : Run (siteSem P R) c₀ tr c)
    (htr : tr = pre ++ e :: post) (hid : provenCeremony e.event = some id) :
    ∃ b ∈ pre, ∃ cer, Begins P R b.event id cer ∧ e.pre.world.ceremonies id = some cer ∧
      cer.expired e.pre.world.now = false := by
  obtain ⟨c₁, hpre, hstate, -, hsem⟩ := hrun.cut htr
  have hinv := ceremonyInv_run huuid hnone hpre
  rw [hstate] at hinv
  obtain ⟨cer, hcer, hexp, -⟩ := (ceremonyStep hsem).proven id hid
  obtain ⟨b, hb, hbegin⟩ := hinv.begun id cer hcer
  exact ⟨b, hb, cer, hbegin, hcer, hexp⟩

/-- No call verifies a ceremony that was verified before. -/
theorem ceremony_spent (huuid : Function.Injective P.uuid)
    (hnone : ∀ id, c₀.state.world.ceremonies id = none) (hrun : Run (siteSem P R) c₀ tr c)
    (htr : tr = pre ++ e :: post) (hid : provenCeremony e.event = some id) :
    ∀ x ∈ pre, provenCeremony x.event ≠ some id := by
  intro x hx hxid
  obtain ⟨c₁, hpre, hstate, -, hsem⟩ := hrun.cut htr
  have hinv := ceremonyInv_run huuid hnone hpre
  rw [hstate] at hinv
  obtain ⟨cer, hcer, -⟩ := (ceremonyStep hsem).proven id hid
  rw [(hinv.spent x hx id hxid).1] at hcer
  cases hcer

/-- Two calls that verify one ceremony are one call. -/
theorem proven_unique (huuid : Function.Injective P.uuid)
    (hnone : ∀ id, c₀.state.world.ceremonies id = none) (hrun : Run (siteSem P R) c₀ tr c)
    {v v' : Entry ι Site SiteOp SiteAns} (hv : v ∈ tr) (hv' : v' ∈ tr)
    (hid : provenCeremony v.event = some id) (hid' : provenCeremony v'.event = some id) : v' = v := by
  obtain ⟨a, b, htr⟩ := List.append_of_mem hv
  rw [htr] at hv'
  rcases List.mem_append.mp hv' with hmem | hmem
  · exact absurd hid' (ceremony_spent huuid hnone hrun htr hid v' hmem)
  rcases List.mem_cons.mp hmem with rfl | hmem
  · rfl
  · obtain ⟨m, m', rfl⟩ := List.append_of_mem hmem
    have hcut : tr = (a ++ v :: m) ++ v' :: m' := by simp [htr]
    exact absurd hid (ceremony_spent huuid hnone hrun hcut hid' v (by simp))

/-- **One ceremony, one verification.** From a server start, in every run of any
programs, a ceremony that a call verifies was begun before and has not expired,
and no other call of the run verifies it, whether for a login or for a
registration. -/
theorem ceremony_once (huuid : Function.Injective P.uuid)
    (hnone : ∀ id, c₀.state.world.ceremonies id = none) (hrun : Run (siteSem P R) c₀ tr c)
    (htr : tr = pre ++ e :: post) (hid : provenCeremony e.event = some id) :
    (∃ b ∈ pre, ∃ cer, Begins P R b.event id cer ∧ e.pre.world.ceremonies id = some cer ∧
      cer.expired e.pre.world.now = false) ∧
    ∀ x ∈ pre ++ post, provenCeremony x.event ≠ some id := by
  refine ⟨ceremony_begun huuid hnone hrun htr hid, fun x hx hxid => ?_⟩
  rcases List.mem_append.mp hx with hx | hx
  · exact ceremony_spent huuid hnone hrun htr hid x hx hxid
  · obtain ⟨a, d, rfl⟩ := List.append_of_mem hx
    have hcut : tr = (pre ++ e :: a) ++ x :: d := by simp [htr]
    exact ceremony_spent huuid hnone hrun hcut hxid e (by simp) hid

/-- The ceremony of the second registration of a visit. -/
theorem ceremony_once_visit :
    ∃ pre e post, visit.1 = pre ++ e :: post ∧ provenCeremony e.event = some "uuuu" ∧
      (∃ b ∈ pre, ∃ cer, Begins .keyed .sample b.event "uuuu" cer ∧
        e.pre.world.ceremonies "uuuu" = some cer ∧ cer.expired e.pre.world.now = false) ∧
      ∀ x ∈ pre ++ post, provenCeremony x.event ≠ some "uuuu" := by
  have hproven : ∃ e ∈ visit.1, provenCeremony e.event = some "uuuu" := by decide +kernel
  obtain ⟨e, he, hid⟩ := hproven
  obtain ⟨pre, post, htr⟩ := List.append_of_mem he
  exact ⟨pre, e, post, htr, hid, ceremony_once injective_keyed (fun _ => rfl) run_visit htr hid⟩

end Runs

end E2Mail.Backend
