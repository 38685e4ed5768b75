import E2Mail.Backend.Login
import E2Mail.Lib.Unwinding

/-!
# The order of the folders

`GetFolderOrder` and `SetFolderOrder`, with the table `folder_order` behind them.
A save deletes the owner's rows of the account and inserts new ones, in one
transaction under the store's lock, so a request is one step.

The lookup and the deletion ask for the owner; the primary key
`(account_id, name_hash)` does not name one, and neither handler asks whose the
account is. An insertion therefore fails where another owner has a row of the
same account id and folder name.

* `folderOrderStep` — the requests.
* `NoClash` — no save meets another owner's row under its account and names.
* `noninterfering_iff` — that is when an owner's requests are answered as if
  nobody else had made any.
-/

namespace E2Mail.Backend

open Lib

/-! ## The table -/

/-- A text column wrapped with a data key; the empty text is stored as it is. -/
structure WrappedField where
  plain : String
  key : Option Nat
  deriving DecidableEq

/-- `WrapField`. -/
def wrapField (dek : Option Nat) (plain : String) : Res WrappedField :=
  if plain = "" then .ok ⟨"", none⟩
  else if dek = none then .error { text := "dek required" }
  else .ok ⟨plain, dek⟩

/-- `UnwrapField`. -/
def unwrapField (dek : Option Nat) (f : WrappedField) : Res String :=
  if f.plain = "" then .ok ""
  else if f.key = dek then .ok f.plain
  else .error { text := "cipher: message authentication failed" }

/-- A row of `folder_order`. -/
structure FolderOrderRow where
  ownerID : String
  accountID : String
  nameHash : String
  folderName : WrappedField
  sortIndex : Nat
  deriving DecidableEq

/-- The primary key of `folder_order`. -/
def FolderOrderRow.key (r : FolderOrderRow) : String × String := (r.accountID, r.nameHash)

/-- The condition `owner_id = ? AND account_id = ?`. -/
def FolderOrderRow.isOf (ownerID accountID : String) (r : FolderOrderRow) : Bool :=
  r.ownerID = ownerID ∧ r.accountID = accountID

/-- The table `folder_order`. -/
abbrev FolderOrders : Type := Table FolderOrderRow.key

/-- `nameIndex`. -/
def nameIndex (P : Params) (folder : String) : String := P.sha256Hex folder

/-- `storage.GetFolderOrder`. -/
def FolderOrders.getFolderOrder (P : Params) (userEmail accountID : String) (dek : Option Nat)
    (t : FolderOrders) : Res (List String) :=
  ((t.rows.filter (·.isOf (P.ownerID userEmail) accountID)).insertionSort
    fun r s => r.sortIndex ≤ s.sortIndex).mapM fun r => unwrapField dek r.folderName

/-- The insertions of a save, with the index of each name. -/
def insertOrder (P : Params) (ownerID accountID : String) (dek : Option Nat) :
    List (String × Nat) → FolderOrders → Res FolderOrders
  | [], t => .ok t
  | (name, i) :: rest, t =>
    match wrapField dek name with
    | .error e => .error e
    | .ok encName =>
      match t.insert? ⟨ownerID, accountID, nameIndex P name, encName, i⟩ with
      | none =>
        .error { text :=
          "UNIQUE constraint failed: folder_order.account_id, folder_order.name_hash" }
      | some t' => insertOrder P ownerID accountID dek rest t'

/-- `storage.SetFolderOrder`; a failing transaction is rolled back. -/
def FolderOrders.setFolderOrder (P : Params) (userEmail accountID : String)
    (orderedNames : List String) (dek : Option Nat) (t : FolderOrders) : Res FolderOrders :=
  insertOrder P (P.ownerID userEmail) accountID dek orderedNames.zipIdx
    (t.delete (·.isOf (P.ownerID userEmail) accountID))

/-! ## The handlers -/

/-- The authenticated request's session: its email and the unlocked data key. -/
structure OwnerContext where
  email : String
  dek : Option Nat
  deriving DecidableEq

/-- The requests, each with whether the database fails during it. -/
inductive FolderOrderRequest where
  | get (ctx : Option OwnerContext) (id : String) (fails : Bool)
  | set (ctx : Option OwnerContext) (id : String) (body : Except BodyErr (List String))
      (fails : Bool)

/-- A response with an order, or any other response. -/
abbrev FolderOrderResp : Type := Except Resp (List String)

/-- The handler `GetFolderOrder`. -/
def getFolderOrder (P : Params) (ctx? : Option OwnerContext) (id : String) (fails : Bool)
    (t : FolderOrders) : FolderOrderResp :=
  match ctx? with
  | none => .error (unauthorized "unauthorized")
  | some ctx =>
    match if fails then .error { text := "fault" } else t.getFolderOrder P ctx.email id ctx.dek with
    | .error _ => .error (internalServerError "failed to read folder order")
    | .ok order => .ok order

/-- The handler `SetFolderOrder`. -/
def setFolderOrder (P : Params) (ctx? : Option OwnerContext) (id : String)
    (body : Except BodyErr (List String)) (fails : Bool) (t : FolderOrders) :
    FolderOrderResp × FolderOrders :=
  match ctx? with
  | none => (.error (unauthorized "unauthorized"), t)
  | some ctx =>
    match body with
    | .error e => (.error (respondBodyParseError e "invalid json payload"), t)
    | .ok order =>
      match if fails then .error { text := "fault" }
        else t.setFolderOrder P ctx.email id order ctx.dek with
      | .error _ => (.error (internalServerError "failed to save folder order"), t)
      | .ok t' => (.error (.success (.done "saved")), t')

/-- One request. -/
def folderOrderStep (P : Params) : FolderOrderRequest → FolderOrders → FolderOrderResp × FolderOrders
  | .get ctx id fails, t => (getFolderOrder P ctx id fails t, t)
  | .set ctx id body fails, t => setFolderOrder P ctx id body fails t

/-- The session of a request. -/
def FolderOrderRequest.ctx : FolderOrderRequest → Option OwnerContext
  | get ctx _ _ => ctx
  | set ctx _ _ _ => ctx

/-- The request is one of the owner column. -/
def FolderOrderRequest.isOf (P : Params) (ownerID : String) (r : FolderOrderRequest) : Bool :=
  r.ctx.any fun ctx => P.ownerID ctx.email = ownerID

/-! ## Clashes -/

/-- What a save would insert, and can insert by itself: its names can be wrapped,
and no two of them have the same hash. -/
def Insertable (P : Params) (dek : Option Nat) (names : List String) : Prop :=
  (∀ name ∈ names, ∃ f, wrapField dek name = .ok f) ∧ (names.map (nameIndex P)).Nodup

/-- No save of the request's owner that could go through by itself meets another
owner's row under the same account id and the hash of one of its names. -/
def NoClash (P : Params) (r : FolderOrderRequest) (t : FolderOrders) : Prop :=
  ∀ ctx id names, r = .set (some ctx) id (.ok names) false → Insertable P ctx.dek names →
    ∀ name ∈ names, ∀ row ∈ t.rows, row.key = (id, nameIndex P name) →
      row.ownerID = P.ownerID ctx.email

/-- The owner's rows, in their order. -/
def FolderOrders.ofOwner (ownerID : String) (t : FolderOrders) : List FolderOrderRow :=
  t.rows.filter fun r => r.ownerID = ownerID

/-! ## What a save does -/

section Save

variable {P : Params} {ownerID accountID : String} {dek : Option Nat}

/-- The rows the insertions add. -/
def orderRows (P : Params) (ownerID accountID : String) (dek : Option Nat) :
    List (String × Nat) → List FolderOrderRow
  | [] => []
  | (name, i) :: rest =>
    match wrapField dek name with
    | .error _ => []
    | .ok encName =>
      ⟨ownerID, accountID, nameIndex P name, encName, i⟩ ::
        orderRows P ownerID accountID dek rest

theorem owner_of_orderRows {l : List (String × Nat)} {r : FolderOrderRow}
    (hr : r ∈ orderRows P ownerID accountID dek l) : r.ownerID = ownerID := by
  induction l with
  | nil => cases hr
  | cons p l ih =>
    obtain ⟨name, i⟩ := p
    rw [orderRows] at hr
    split at hr
    · cases hr
    · rcases List.mem_cons.mp hr with rfl | hr
      · rfl
      · exact ih hr

/-- Insertions that succeed append their rows. -/
theorem rows_insertOrder {l : List (String × Nat)} {t t' : FolderOrders}
    (h : insertOrder P ownerID accountID dek l t = .ok t') :
    t'.rows = t.rows ++ orderRows P ownerID accountID dek l := by
  induction l generalizing t with
  | nil =>
    obtain rfl := Except.ok.inj h
    exact (List.append_nil _).symm
  | cons p l ih =>
    obtain ⟨name, i⟩ := p
    rw [insertOrder] at h
    rw [orderRows]
    rcases hwrap : wrapField dek name with e | f
    · rw [hwrap] at h
      cases h
    · simp only [hwrap] at h ⊢
      rcases hins : t.insert? ⟨ownerID, accountID, nameIndex P name, f, i⟩ with _ | t₁
      · rw [hins] at h
        cases h
      · rw [hins] at h
        rw [ih h, (Table.insert?_eq_some.mp hins).2, List.append_assoc]
        rfl

/-- **When the insertions succeed**: the names can be wrapped, their hashes are
distinct, and no row has the account id and one of the hashes. -/
theorem insertOrder_ok_iff {l : List (String × Nat)} {t : FolderOrders} :
    (∃ t', insertOrder P ownerID accountID dek l t = .ok t') ↔
      (∀ p ∈ l, ∃ f, wrapField dek p.1 = .ok f) ∧ (l.map fun p => nameIndex P p.1).Nodup ∧
        ∀ p ∈ l, ∀ row ∈ t.rows, row.key ≠ (accountID, nameIndex P p.1) := by
  induction l generalizing t with
  | nil => exact ⟨fun _ => by simp, fun _ => ⟨t, rfl⟩⟩
  | cons p l ih =>
    obtain ⟨name, i⟩ := p
    rw [insertOrder]
    rcases hwrap : wrapField dek name with e | f
    · refine ⟨?_, fun h => ?_⟩
      · rintro ⟨t', ⟨⟩⟩
      · obtain ⟨f, hf⟩ := h.1 _ List.mem_cons_self
        rw [hwrap] at hf
        cases hf
    rcases hins : t.insert? ⟨ownerID, accountID, nameIndex P name, f, i⟩ with _ | t₁
    · obtain ⟨row, hrow, hkey⟩ := List.mem_map.mp (Table.insert?_eq_none.mp hins)
      simp only [hins]
      refine ⟨?_, fun h => absurd hkey (h.2.2 _ List.mem_cons_self row hrow)⟩
      rintro ⟨t', ⟨⟩⟩
    · obtain ⟨hnew, hrows⟩ := Table.insert?_eq_some.mp hins
      simp only [hins]
      rw [ih, List.map_cons, List.nodup_cons]
      constructor
      · rintro ⟨hwraps, hnodup, hfree⟩
        refine ⟨?_, ⟨?_, hnodup⟩, ?_⟩
        · intro p hp
          rcases List.mem_cons.mp hp with rfl | hp
          · exact ⟨f, hwrap⟩
          · exact hwraps p hp
        · -- the row just inserted takes its hash
          intro hmem
          obtain ⟨p, hp, heq⟩ := List.mem_map.mp hmem
          refine hfree p hp _ (by rw [hrows]; exact List.mem_append_right _ List.mem_cons_self) ?_
          rw [heq]
          rfl
        · intro p hp row hrow
          rcases List.mem_cons.mp hp with rfl | hp
          · exact fun hkey => hnew (List.mem_map.mpr ⟨row, hrow, hkey⟩)
          · exact hfree p hp row (by rw [hrows]; exact List.mem_append_left _ hrow)
      · rintro ⟨hwraps, ⟨hfirst, hnodup⟩, hfree⟩
        refine ⟨fun p hp => hwraps p (List.mem_cons_of_mem _ hp), hnodup, fun p hp row hrow => ?_⟩
        rw [hrows] at hrow
        rcases List.mem_append.mp hrow with hrow | hrow
        · exact hfree p (List.mem_cons_of_mem _ hp) row hrow
        · obtain rfl := List.mem_singleton.mp hrow
          intro hkey
          exact hfirst (List.mem_map.mpr ⟨p, hp, (congrArg Prod.snd hkey).symm⟩)

/-- A save goes through if it could by itself, and no other owner's row is in its way. -/
theorem setFolderOrder_ok_iff {email : String} {names : List String} {t : FolderOrders} :
    (∃ t', t.setFolderOrder P email accountID names dek = .ok t') ↔
      Insertable P dek names ∧ ∀ name ∈ names, ∀ row ∈ t.rows,
        row.key = (accountID, nameIndex P name) → row.ownerID = P.ownerID email := by
  have hnames : ∀ q : String → Prop, (∀ p ∈ names.zipIdx, q p.1) ↔ ∀ name ∈ names, q name := by
    intro q
    constructor
    · intro h name hname
      obtain ⟨i, hi⟩ := List.getElem?_of_mem hname
      exact h (name, i) (List.mk_mem_zipIdx_iff_getElem?.mpr hi)
    · intro h p hp
      exact h p.1 (List.fst_mem_of_mem_zipIdx hp)
  have hmap : (names.zipIdx.map fun p => nameIndex P p.1) = names.map (nameIndex P) := by
    conv_rhs => rw [← List.zipIdx_map_fst 0 names, List.map_map]
    rfl
  rw [FolderOrders.setFolderOrder, insertOrder_ok_iff, hmap, ← and_assoc, Insertable,
    hnames fun name => ∃ f, wrapField dek name = .ok f]
  have hfree : ∀ d : FolderOrders, (∀ p ∈ names.zipIdx, ∀ row ∈ d.rows,
      row.key ≠ (accountID, nameIndex P p.1)) ↔
      ∀ name ∈ names, ∀ row ∈ d.rows, row.key ≠ (accountID, nameIndex P name) :=
    fun d => hnames fun name => ∀ row ∈ d.rows, row.key ≠ (accountID, nameIndex P name)
  rw [hfree]
  refine and_congr_right fun _ => ?_
  constructor
  · intro h name hname row hrow hkey
    by_contra hother
    refine h name hname row (Table.mem_delete.mpr ⟨hrow, ?_⟩) hkey
    simp [FolderOrderRow.isOf, hother]
  · intro h name hname row hrow hkey
    obtain ⟨hrow, hkept⟩ := Table.mem_delete.mp hrow
    have howner := h name hname row hrow hkey
    have haccount : row.accountID = accountID := congrArg Prod.fst hkey
    simp [FolderOrderRow.isOf, howner, haccount] at hkept

/-- A save that goes through leaves the rows of other accounts and owners, and adds its own. -/
theorem rows_setFolderOrder {email : String} {names : List String} {t t' : FolderOrders}
    (h : t.setFolderOrder P email accountID names dek = .ok t') :
    t'.rows = (t.rows.filter fun r => !r.isOf (P.ownerID email) accountID) ++
      orderRows P (P.ownerID email) accountID dek names.zipIdx :=
  rows_insertOrder h

end Save

/-! ## Noninterference -/

section Noninterference

variable {P : Params} {ownerID : String}

/-- The user's own run: it has the owner's rows in their order, and no others. -/
def OwnRun (ownerID : String) (t u : FolderOrders) : Prop :=
  t.ofOwner ownerID = u.ofOwner ownerID ∧ ∀ r ∈ u.rows, r.ownerID = ownerID

/-- The rows of an account of the owner are among the owner's rows. -/
theorem filter_isOf (t : FolderOrders) (accountID : String) :
    t.rows.filter (·.isOf ownerID accountID) =
      (t.ofOwner ownerID).filter (·.isOf ownerID accountID) := by
  rw [FolderOrders.ofOwner, List.filter_filter]
  refine List.filter_congr fun r _ => ?_
  by_cases howner : r.ownerID = ownerID <;> simp [FolderOrderRow.isOf, howner]

/-- What a save leaves of an owner's rows: another owner's save all of them. -/
theorem ofOwner_setFolderOrder {email accountID : String} {names : List String} {dek : Option Nat}
    {t t' : FolderOrders} (h : t.setFolderOrder P email accountID names dek = .ok t') :
    t'.ofOwner ownerID =
      if P.ownerID email = ownerID then
        ((t.ofOwner ownerID).filter fun r => !r.isOf ownerID accountID) ++
          orderRows P ownerID accountID dek names.zipIdx
      else t.ofOwner ownerID := by
  rw [FolderOrders.ofOwner, rows_setFolderOrder h, List.filter_append, List.filter_filter]
  split
  · rename_i heq
    rw [heq]
    have hall : (orderRows P ownerID accountID dek names.zipIdx).filter
        (fun r => r.ownerID = ownerID) = orderRows P ownerID accountID dek names.zipIdx :=
      List.filter_eq_self.mpr fun r hr => decide_eq_true (owner_of_orderRows hr)
    have hkept : (t.ofOwner ownerID).filter (fun r => !r.isOf ownerID accountID) =
        t.rows.filter fun r => decide (r.ownerID = ownerID) && !r.isOf ownerID accountID := by
      rw [FolderOrders.ofOwner, List.filter_filter]
      refine List.filter_congr fun r _ => ?_
      rw [Bool.and_comm]
    rw [hall, hkept]
  · rename_i hne
    have hnone : (orderRows P (P.ownerID email) accountID dek names.zipIdx).filter
        (fun r => r.ownerID = ownerID) = [] := by
      refine List.filter_eq_nil_iff.mpr fun r hr => ?_
      rw [owner_of_orderRows hr]
      simpa using hne
    rw [hnone, List.append_nil, FolderOrders.ofOwner]
    refine List.filter_congr fun r _ => ?_
    by_cases howner : r.ownerID = ownerID
    · simp [FolderOrderRow.isOf, howner, Ne.symm hne]
    · simp [howner]

/-- A save is answered with success, and does what the table does, or changes nothing. -/
theorem setFolderOrder_cases (ctx? : Option OwnerContext) (id : String)
    (body : Except BodyErr (List String)) (fails : Bool) (t : FolderOrders) :
    (∃ ctx names t', ctx? = some ctx ∧ body = .ok names ∧ fails = false ∧
        t.setFolderOrder P ctx.email id names ctx.dek = .ok t' ∧
        setFolderOrder P ctx? id body fails t = (.error (.success (.done "saved")), t')) ∨
      (setFolderOrder P ctx? id body fails t).2 = t := by
  rcases ctx? with _ | ctx
  · exact .inr rfl
  rcases body with e | names
  · exact .inr rfl
  cases fails with
  | true => exact .inr rfl
  | false =>
    rcases hset : t.setFolderOrder P ctx.email id names ctx.dek with e | t'
    · simp [setFolderOrder, hset]
    · refine .inl ⟨ctx, names, t', rfl, rfl, rfl, hset, ?_⟩
      simp [setFolderOrder, hset]

/-- Nobody else's request changes the owner's rows. -/
theorem ownRun_others {r : FolderOrderRequest} {t u : FolderOrders} (hr : r.isOf P ownerID = false)
    (hV : OwnRun ownerID t u) : OwnRun ownerID (folderOrderStep P r t).2 u := by
  rcases r with ⟨ctx?, id, fails⟩ | ⟨ctx?, id, body, fails⟩
  · exact hV
  · rcases setFolderOrder_cases (P := P) ctx? id body fails t with
      ⟨ctx, names, t', rfl, -, -, hset, hstep⟩ | hsame
    · have hne : P.ownerID ctx.email ≠ ownerID := by
        simpa [FolderOrderRequest.isOf, FolderOrderRequest.ctx] using hr
      refine ⟨?_, hV.2⟩
      rw [folderOrderStep, hstep, ofOwner_setFolderOrder hset, if_neg hne]
      exact hV.1
    · rw [folderOrderStep, hsame]
      exact hV

/-- In the user's own run a save goes through if it could by itself. -/
theorem ownRun_ok_iff {ctx : OwnerContext} {id : String} {names : List String} {t u : FolderOrders}
    (hV : OwnRun (P.ownerID ctx.email) t u) :
    (∃ u', u.setFolderOrder P ctx.email id names ctx.dek = .ok u') ↔ Insertable P ctx.dek names := by
  rw [setFolderOrder_ok_iff]
  exact ⟨fun h => h.1, fun h => ⟨h, fun _ _ row hrow _ => hV.2 row hrow⟩⟩

/-- The owner's clean requests are answered alike, and keep the two runs together. -/
theorem ownRun_own {r : FolderOrderRequest} {t u : FolderOrders} (hr : r.isOf P ownerID = true)
    (hV : OwnRun ownerID t u) (hclean : NoClash P r t) :
    (folderOrderStep P r t).1 = (folderOrderStep P r u).1 ∧
      OwnRun ownerID (folderOrderStep P r t).2 (folderOrderStep P r u).2 := by
  rcases r with ⟨ctx?, id, fails⟩ | ⟨ctx?, id, body, fails⟩
  · refine ⟨?_, hV⟩
    rcases ctx? with _ | ctx
    · rfl
    have howner : P.ownerID ctx.email = ownerID := by
      simpa [FolderOrderRequest.isOf, FolderOrderRequest.ctx] using hr
    have hread : t.getFolderOrder P ctx.email id ctx.dek = u.getFolderOrder P ctx.email id ctx.dek := by
      rw [FolderOrders.getFolderOrder, FolderOrders.getFolderOrder, howner, filter_isOf t, filter_isOf u,
        hV.1]
    rw [folderOrderStep, folderOrderStep, getFolderOrder, getFolderOrder, hread]
  · rcases ctx? with _ | ctx
    · exact ⟨rfl, hV⟩
    rcases body with e | names
    · exact ⟨rfl, hV⟩
    cases fails with
    | true => exact ⟨rfl, hV⟩
    | false =>
      obtain rfl : P.ownerID ctx.email = ownerID := by
        simpa [FolderOrderRequest.isOf, FolderOrderRequest.ctx] using hr
      -- both saves go through, or neither does
      have hboth : (∃ t', t.setFolderOrder P ctx.email id names ctx.dek = .ok t') ↔
          ∃ u', u.setFolderOrder P ctx.email id names ctx.dek = .ok u' := by
        rw [ownRun_ok_iff hV, setFolderOrder_ok_iff]
        exact ⟨fun h => h.1, fun h => ⟨h, hclean ctx id names rfl h⟩⟩
      rcases ht : t.setFolderOrder P ctx.email id names ctx.dek with e | t'
      · rcases hu : u.setFolderOrder P ctx.email id names ctx.dek with e' | u'
        · simpa [folderOrderStep, setFolderOrder, ht, hu] using hV
        · obtain ⟨t', ht'⟩ := hboth.mpr ⟨u', hu⟩
          rw [ht] at ht'
          cases ht'
      · obtain ⟨u', hu⟩ := hboth.mp ⟨t', ht⟩
        have hview : OwnRun (P.ownerID ctx.email) t' u' := by
          refine ⟨?_, fun r hr => ?_⟩
          · rw [ofOwner_setFolderOrder ht, ofOwner_setFolderOrder hu, hV.1]
          · rw [rows_setFolderOrder hu] at hr
            rcases List.mem_append.mp hr with hr | hr
            · exact hV.2 r (List.mem_filter.mp hr).1
            · exact owner_of_orderRows hr
        simpa [folderOrderStep, setFolderOrder, ht, hu] using hview

/-- A save that meets another owner's row is refused, though it could go through by itself. -/
theorem ownRun_breach {r : FolderOrderRequest} {t u : FolderOrders} (hr : r.isOf P ownerID = true)
    (hV : OwnRun ownerID t u) (hclash : ¬NoClash P r t) :
    (folderOrderStep P r t).1 ≠ (folderOrderStep P r u).1 := by
  rw [NoClash] at hclash
  push Not at hclash
  obtain ⟨ctx, id, names, rfl, hins, name, hname, row, hrow, hkey, hother⟩ := hclash
  obtain rfl : P.ownerID ctx.email = ownerID := by
    simpa [FolderOrderRequest.isOf, FolderOrderRequest.ctx] using hr
  obtain ⟨u', hu⟩ : ∃ u', u.setFolderOrder P ctx.email id names ctx.dek = .ok u' :=
    (ownRun_ok_iff hV).mpr hins
  rcases ht : t.setFolderOrder P ctx.email id names ctx.dek with e | t'
  · simp [folderOrderStep, setFolderOrder, ht, hu, internalServerError]
  · have hno := (setFolderOrder_ok_iff.mp ⟨t', ht⟩).2 name hname row hrow hkey
    exact absurd hno hother

/-- **When nobody interferes with an owner's folder orders**: exactly when no save
of the owner meets a row of another owner under its account id and names. -/
theorem noninterfering_iff (P : Params) (ownerID : String) (reqs : List FolderOrderRequest) :
    Noninterfering (folderOrderStep P) (·.isOf P ownerID) reqs Table.empty ↔
      CleanRun (folderOrderStep P) (·.isOf P ownerID) (NoClash P) reqs Table.empty := by
  rw [Noninterfering]
  refine seen_eq_iff (V := OwnRun ownerID) ?_ ?_ ?_ ⟨rfl, ?_⟩
  · intro r t u hr hV
    exact ownRun_others hr hV
  · intro r t u hr hV hclean
    exact ownRun_own hr hV hclean
  · intro r t u hr hV hclash
    exact ownRun_breach hr hV hclash
  · intro r hr
    cases hr

/-- Somebody saves an order under the account id of the owner, who then saves one. -/
def squatting : List FolderOrderRequest :=
  [.set (some ⟨"b@x", some 1⟩) "acc1" (.ok ["INBOX"]) false,
    .set (some ⟨"a@x", some 0⟩) "acc1" (.ok ["INBOX", "Sent"]) false,
    .get (some ⟨"a@x", some 0⟩) "acc1" false]

/-- **Another owner blocks a save**: it is refused, and the order read back is empty. -/
theorem squatting_interferes :
    ¬Noninterfering (folderOrderStep .sample) (·.isOf .sample "a@x") squatting Table.empty := by
  intro h
  have hanswers := congrArg (List.map Except.toOption) h
  revert hanswers
  decide +kernel

end Noninterference

end E2Mail.Backend
