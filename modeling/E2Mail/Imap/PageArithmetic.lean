import E2Mail.Imap.Search
import E2Mail.Lib.Decimal
import E2Mail.Lib.Int64

/-!
# Page numbers and where they point to

The list handlers take a page number from the client and multiply it by the limit, in integers of
64 bits.

* `listRequest` — the page and the limit that a handler admits;
* `cutEarly`, `cutClamped` — the slices that the lists take for a page;
* `Points` — the page number that points to its page;
* `Paged` — no slice is out of range, and the pages together are the list;
* `CutFrom.paged_iff` — when a list is paged.
-/

namespace E2Mail.Imap.Pages

open Lib

/-! ## Requests -/

/-- `strconv.Atoi`. -/
def atoi (s : Bytes) : Option Int :=
  let value : Option Int :=
    match s with
    | c :: digits =>
      if c == 45 then (parseDecimal digits).map fun n => -Int.ofNat n
      else if c == 43 then (parseDecimal digits).map Int.ofNat
      else (parseDecimal s).map Int.ofNat
    | [] => none
  value.filter fun n => decide (-2 ^ 63 ≤ n ∧ n < 2 ^ 63)

/-- What a list handler admits. -/
structure PageRequest where
  page : Int
  limit : Int
  page_pos : 1 ≤ page
  page_lt : page < 2 ^ 63
  limit_pos : 1 ≤ limit
  limit_le : limit ≤ 100

theorem atoi_range {s : Bytes} {n : Int} (h : atoi s = some n) : -2 ^ 63 ≤ n ∧ n < 2 ^ 63 :=
  of_decide_eq_true (Option.filter_eq_some_iff.1 h).2

/-- The page of a query: the first one, where there is no positive number. -/
def pageParam (pStr : Bytes) : { p : Int // 1 ≤ p ∧ p < 2 ^ 63 } :=
  match h : atoi pStr with
  | some p => if hp : 0 < p then ⟨p, by omega, (atoi_range h).2⟩ else ⟨1, by decide⟩
  | none => ⟨1, by decide⟩

theorem limit_given {l : Int} (hl : 0 < l ∧ l ≤ 100) : 1 ≤ l ∧ l ≤ 100 := hl

theorem limit_default : (1 : Int) ≤ 50 ∧ (50 : Int) ≤ 100 := by decide

/-- The limit of a query: 50, where there is no number from 1 to 100. -/
def limitParam (lStr : Bytes) : { l : Int // 1 ≤ l ∧ l ≤ 100 } :=
  match atoi lStr with
  | some l => if hl : 0 < l ∧ l ≤ 100 then ⟨l, limit_given hl⟩ else ⟨50, limit_default⟩
  | none => ⟨50, limit_default⟩

/-- The beginning of `ListMessages` and `ListUnreadMessages`. -/
def listRequest (pStr lStr : Bytes) : PageRequest where
  page := (pageParam pStr).1
  limit := (limitParam lStr).1
  page_pos := (pageParam pStr).2.1
  page_lt := (pageParam pStr).2.2
  limit_pos := (limitParam lStr).2.1
  limit_le := (limitParam lStr).2.2

theorem atoi_decimal {n : Nat} (h : (n : Int) < 2 ^ 63) : atoi (decimal n) = some (n : Int) := by
  obtain ⟨c, digits, hd⟩ := List.exists_cons_of_ne_nil (decimal_ne_nil n)
  have hdigit : isDecimalDigit c = true := isDecimalDigit_decimal (hd ▸ List.mem_cons_self)
  have hsign : (c == 45) = false ∧ (c == 43) = false := by
    constructor <;>
    · rw [beq_eq_false_iff_ne]
      rintro rfl
      revert hdigit
      decide
  have hparse : parseDecimal (c :: digits) = some n := hd ▸ parseDecimal_decimal n
  rw [hd]
  simp only [atoi, hsign.1, hsign.2, hparse, Bool.false_eq_true, if_false, Option.map_some,
    Option.filter_some]
  have hlow : -2 ^ 63 ≤ Int.ofNat n := Int.le_trans (by decide) (Int.natCast_nonneg n)
  exact if_pos (decide_eq_true ⟨hlow, h⟩)

/-- A client can ask for every page that is admitted. -/
theorem listRequest_surjective (r : PageRequest) : ∃ pStr lStr, listRequest pStr lStr = r := by
  obtain ⟨page, limit, hpage, hlt, hpos, hle⟩ := r
  obtain ⟨p, rfl⟩ := Int.eq_ofNat_of_zero_le (show 0 ≤ page by omega)
  obtain ⟨l, rfl⟩ := Int.eq_ofNat_of_zero_le (show 0 ≤ limit by omega)
  refine ⟨decimal p, decimal l, ?_⟩
  have hp : (pageParam (decimal p)).1 = p := by
    rw [pageParam]
    split
    · rename_i n hn
      rw [atoi_decimal hlt] at hn
      obtain rfl : (p : Int) = n := Option.some.inj hn
      rw [dif_pos (by omega)]
    · rename_i hn
      rw [atoi_decimal hlt] at hn
      cases hn
  have hl : (limitParam (decimal l)).1 = l := by
    rw [limitParam, atoi_decimal (by omega)]
    dsimp only
    rw [dif_pos ⟨by omega, hle⟩]
  simp only [listRequest, PageRequest.mk.injEq]
  exact ⟨hp, hl⟩

/-! ## Answers -/

/-- Why there is no answer. -/
inductive Failure
  /-- the error that the function returns -/
  | error (e : String)
  /-- slice bounds out of range -/
  | outOfRange
  deriving DecidableEq, Repr

/-- `MessageListResult`, and `ThreadListResult`. -/
structure Answer (α : Type) where
  folder : String
  mode : String
  total : Int
  page : Int
  limit : Int
  totalPages : Int
  items : List α

variable {α : Type}

/-- `totalPages`. -/
def totalPages (total limit : Int) : Int := (wrap (wrap (total + limit) - 1)).tdiv limit

/-- `start`. -/
def pageStart (page limit : Int) : Int := wrap ((page - 1) * limit)

/-- The slice of `FetchMessageSummaries`: none from the end on. -/
def cutEarly (l : List α) (page limit : Int) : Except Failure (List α) :=
  let start := pageStart page limit
  if start ≥ l.length then .ok []
  else
    let stop := wrap (start + limit)
    let stop := if stop > l.length then (l.length : Int) else stop
    (slice l start stop).elim (.error .outOfRange) .ok

/-- The slice of `FetchAllUnread` and `FetchThreadList`: both bounds are cut off at the end. -/
def cutClamped (l : List α) (page limit : Int) : Except Failure (List α) :=
  let start := pageStart page limit
  let start := if start > l.length then (l.length : Int) else start
  let stop := wrap (start + limit)
  let stop := if stop > l.length then (l.length : Int) else stop
  (slice l start stop).elim (.error .outOfRange) .ok

/-! ## Where a page number points to -/

section Cut

variable {l : List α} {page limit : Int}

/-- The items from a start on, or no slice, if the start is negative. -/
def cutAt (l : List α) (start limit : Int) : Except Failure (List α) :=
  if start < 0 then .error .outOfRange else .ok ((l.drop start.toNat).take limit.toNat)

/-- A slice that starts in the list. -/
theorem slice_cutAt (hl : l.length < 2 ^ 62) (hlimit : 0 ≤ limit) (hlt : limit < 2 ^ 62) {start : Int}
    (hlow : -2 ^ 63 ≤ start) (hstart : start ≤ l.length) :
    (slice l start (if wrap (start + limit) > l.length then (l.length : Int)
      else wrap (start + limit))).elim (.error .outOfRange) .ok = cutAt l start limit := by
  have hsum : wrap (start + limit) = start + limit := wrap_of_range (by omega) (by omega)
  rw [hsum, cutAt]
  by_cases hneg : start < 0
  · rw [if_pos hneg, slice_of_neg hneg]
    rfl
  · rw [if_neg hneg]
    obtain ⟨n, rfl⟩ := Int.eq_ofNat_of_zero_le (Int.not_lt.1 hneg)
    obtain ⟨k, rfl⟩ := Int.eq_ofNat_of_zero_le hlimit
    have hstop : (if (n : Int) + (k : Int) > (l.length : Int) then (l.length : Int)
        else (n : Int) + (k : Int)) = (min (n + k) l.length : Nat) := by
      split <;> omega
    rw [hstop, slice_window (by omega)]
    rfl

theorem cutAt_beyond {start : Int} (h : (l.length : Int) ≤ start) : cutAt l start limit = .ok [] := by
  rw [cutAt, if_neg (by omega), List.drop_of_length_le (by omega), List.take_nil]

theorem cutEarly_eq (hl : l.length < 2 ^ 62) (hlimit : 0 ≤ limit) (hlt : limit < 2 ^ 62) :
    cutEarly l page limit = cutAt l (pageStart page limit) limit := by
  have hrange := wrap_range ((page - 1) * limit)
  rw [cutEarly]
  by_cases hge : pageStart page limit ≥ l.length
  · rw [if_pos hge, cutAt_beyond hge]
  · rw [if_neg hge]
    exact slice_cutAt hl hlimit hlt hrange.1 (by omega)

theorem cutClamped_eq (hl : l.length < 2 ^ 62) (hlimit : 0 ≤ limit) (hlt : limit < 2 ^ 62) :
    cutClamped l page limit = cutAt l (pageStart page limit) limit := by
  have hrange := wrap_range ((page - 1) * limit)
  rw [cutClamped]
  by_cases hgt : pageStart page limit > l.length
  · rw [if_pos hgt, cutAt_beyond (Int.le_of_lt hgt)]
    exact (slice_cutAt hl hlimit hlt (by omega) (Int.le_refl _)).trans (cutAt_beyond (Int.le_refl _))
  · rw [if_neg hgt]
    exact slice_cutAt hl hlimit hlt hrange.1 (by omega)

theorem totalPages_eq {limit : Nat} (hl : l.length < 2 ^ 62) (hlimit : 0 < limit)
    (hlt : limit < 2 ^ 62) : totalPages l.length limit = pageCount limit l := by
  have hsum : wrap (l.length + limit) = l.length + limit := wrap_of_range (by omega) (by omega)
  rw [totalPages, hsum, wrap_of_range (by omega) (by omega), pageCount]
  have hcast : (l.length : Int) + limit - 1 = (l.length + limit - 1 : Nat) := by omega
  rw [hcast]
  rfl

end Cut

/-- **Points**: the first item of the page is where the product says, or that place is past the
end. -/
def Points (r : PageRequest) (total : Nat) : Prop :=
  (r.page - 1) * r.limit < 2 ^ 63 ∨ (total : Int) ≤ pageStart r.page r.limit

/-- **Paged**: no slice is out of range, the pages from the first to the last together are the list,
and the later ones are empty. -/
structure Paged (fetch : Int → Int → Except Failure (Answer α)) (l : List α) (r : PageRequest) :
    Prop where
  inRange : fetch r.page r.limit ≠ .error .outOfRange
  whole : ∀ a, fetch r.page r.limit = .ok a →
    ((List.range a.totalPages.toNat).mapM fun (k : Nat) =>
      (fetch (k + 1) r.limit).map Answer.items).map List.flatten = .ok l
  later : ∀ a, fetch r.page r.limit = .ok a → a.totalPages < r.page → a.items = []

/-- The answers are cut from one list. -/
def CutFrom (fetch : Int → Int → Except Failure (Answer α)) (l : List α) : Prop :=
  ∀ page limit, 1 ≤ page → 1 ≤ limit → limit ≤ 100 →
    (fetch page limit).map (fun a => (a.totalPages, a.items)) =
      (cutAt l (pageStart page limit) limit).map fun items => (totalPages l.length limit, items)

section Paged

variable {fetch : Int → Int → Except Failure (Answer α)} {l : List α} {r : PageRequest}

theorem CutFrom.error (h : CutFrom fetch l) (hneg : pageStart r.page r.limit < 0) :
    fetch r.page r.limit = .error .outOfRange := by
  have hr := h r.page r.limit r.page_pos r.limit_pos r.limit_le
  rw [cutAt, if_pos hneg] at hr
  cases hf : fetch r.page r.limit with
  | error e =>
    rw [hf] at hr
    cases hr
    rfl
  | ok a =>
    rw [hf] at hr
    cases hr

theorem CutFrom.ok (h : CutFrom fetch l) {page limit : Int} (hpage : 1 ≤ page) (hpos : 1 ≤ limit)
    (hle : limit ≤ 100) (hstart : 0 ≤ pageStart page limit) :
    ∃ a, fetch page limit = .ok a ∧ a.totalPages = totalPages l.length limit ∧
      a.items = (l.drop (pageStart page limit).toNat).take limit.toNat := by
  have hr := h page limit hpage hpos hle
  rw [cutAt, if_neg (Int.not_lt.2 hstart)] at hr
  cases hf : fetch page limit with
  | error e =>
    rw [hf] at hr
    cases hr
  | ok a =>
    rw [hf] at hr
    have heq : (a.totalPages, a.items) = (totalPages l.length limit,
        (l.drop (pageStart page limit).toNat).take limit.toNat) := Except.ok.inj hr
    exact ⟨a, rfl, congrArg Prod.fst heq, congrArg Prod.snd heq⟩

/-- The start of a page that the product points to. -/
theorem pageStart_eq {page limit : Int} (hpage : 1 ≤ page) (hlimit : 1 ≤ limit)
    (h : (page - 1) * limit < 2 ^ 63) : pageStart page limit = (page - 1) * limit := by
  have hnonneg : 0 ≤ (page - 1) * limit := Int.mul_nonneg (by omega) (by omega)
  exact wrap_of_range (by omega) h

theorem mapM_ok {β γ ε : Type} {f : β → Except ε γ} {g : β → γ} {l : List β}
    (h : ∀ b ∈ l, f b = .ok (g b)) : l.mapM f = .ok (l.map g) := by
  induction l with
  | nil => rfl
  | cons b l ih =>
    rw [List.mapM_cons, h b List.mem_cons_self, ih fun b' hb' => h b' (List.mem_cons_of_mem _ hb')]
    rfl

/-- The pages together. -/
theorem CutFrom.whole (h : CutFrom fetch l) (hl : l.length < 2 ^ 62) {limit : Nat}
    (hpos : 1 ≤ limit) (hle : limit ≤ 100) :
    ((List.range (pageCount limit l)).mapM fun (k : Nat) =>
      (fetch (k + 1) limit).map Answer.items).map List.flatten = .ok l := by
  have hpages : ∀ k ∈ List.range (pageCount limit l),
      (fetch ((k : Nat) + 1) limit).map Answer.items = .ok (page limit k l) := by
    intro k hk
    rw [List.mem_range] at hk
    -- a page that is counted starts in the list
    have hlt : k * limit < l.length := by
      rw [pageCount, Nat.lt_div_iff_mul_lt (by omega)] at hk
      omega
    have hprod : ((k : Int) + 1 - 1) * limit = (k * limit : Nat) := by
      rw [Int.add_sub_cancel, Int.natCast_mul]
    have hstart : pageStart ((k : Int) + 1) limit = (k * limit : Nat) := by
      rw [pageStart_eq (by omega) (by omega) (by omega), hprod]
    have hnonneg : 0 ≤ pageStart ((k : Int) + 1) limit := by omega
    obtain ⟨a, hok, -, hitems⟩ := h.ok (by omega) (by omega) (by omega) hnonneg
    rw [hok]
    rw [hstart] at hitems
    exact congrArg _ hitems
  rw [mapM_ok hpages]
  exact congrArg _ (flatMap_page_pageCount hpos)

/-- The page numbers above the last one are those with their place past the end. -/
theorem totalPages_lt_iff {limit : Nat} (hl : l.length < 2 ^ 62) (hpos : 1 ≤ limit)
    (hle : limit ≤ 100) {page : Int} :
    totalPages l.length limit < page ↔ (l.length : Int) ≤ (page - 1) * limit := by
  rw [totalPages_eq hl hpos (by omega)]
  have hcover : l.length ≤ pageCount limit l * limit := by
    have hceil := Nat.lt_div_mul_add (a := l.length + limit - 1) hpos
    rw [pageCount]
    omega
  have htight : pageCount limit l * limit < l.length + limit := by
    have hfloor := Nat.div_mul_le_self (l.length + limit - 1) limit
    rw [pageCount]
    omega
  have hcast : (pageCount limit l : Int) * limit = (pageCount limit l * limit : Nat) :=
    (Int.natCast_mul _ _).symm
  constructor
  · intro h
    have hmul : (pageCount limit l : Int) * limit ≤ (page - 1) * limit :=
      Int.mul_le_mul_of_nonneg_right (by omega) (by omega)
    omega
  · intro h
    by_contra hge
    have hmul : (page - 1) * limit ≤ ((pageCount limit l : Int) - 1) * limit :=
      Int.mul_le_mul_of_nonneg_right (by omega) (by omega)
    have hsplit : ((pageCount limit l : Int) - 1) * limit = pageCount limit l * limit - limit := by
      rw [Int.sub_mul, Int.one_mul]
    omega

/-- **One list** is paged just where the page number points to its page. -/
theorem CutFrom.paged_iff (h : CutFrom fetch l) (hl : l.length < 2 ^ 62) :
    Paged fetch l r ↔ Points r l.length := by
  obtain ⟨limit, hlimit⟩ := Int.eq_ofNat_of_zero_le (Int.le_of_lt r.limit_pos)
  have hpage := r.page_pos
  have hpos := r.limit_pos
  have hle := r.limit_le
  have hlast : totalPages l.length r.limit < r.page ↔ (l.length : Int) ≤ (r.page - 1) * r.limit := by
    rw [hlimit]
    exact totalPages_lt_iff hl (by omega) (by omega)
  constructor
  · intro hp
    by_contra hnot
    rw [Points, not_or, Int.not_lt, Int.not_le] at hnot
    obtain ⟨hwrapped, hinside⟩ := hnot
    -- the place is past the end, but the start is not
    by_cases hneg : pageStart r.page r.limit < 0
    · exact hp.inRange (h.error hneg)
    · obtain ⟨a, hok, htotal, hitems⟩ := h.ok hpage hpos hle (Int.not_lt.1 hneg)
      have hnil := hp.later a hok (by rw [htotal]; exact hlast.2 (by omega))
      rw [hitems, List.take_eq_nil_iff, List.drop_eq_nil_iff] at hnil
      omega
  · intro hpoints
    have hstart : 0 ≤ pageStart r.page r.limit ∧
        (totalPages l.length r.limit < r.page → (l.length : Int) ≤ pageStart r.page r.limit) := by
      rcases hpoints with hlt | hge
      · rw [pageStart_eq hpage hpos hlt]
        exact ⟨Int.mul_nonneg (by omega) (by omega), hlast.1⟩
      · exact ⟨by omega, fun _ => hge⟩
    obtain ⟨a, hok, htotal, hitems⟩ := h.ok hpage hpos hle hstart.1
    have heq : ∀ a', fetch r.page r.limit = .ok a' → a' = a := by
      intro a' ha'
      rw [hok] at ha'
      exact (Except.ok.inj ha').symm
    refine ⟨?_, ?_, ?_⟩
    · rw [hok]
      exact nofun
    · intro a' ha'
      rw [heq a' ha', htotal, hlimit, totalPages_eq hl (by omega) (by omega)]
      exact h.whole hl (by omega) (by omega)
    · intro a' ha' hlt
      rw [heq a' ha'] at hlt ⊢
      have hpast := hstart.2 (by rwa [← htotal])
      rw [hitems, List.drop_of_length_le (by omega), List.take_nil]

theorem paged_of_error {e : String} (h : fetch r.page r.limit = .error (.error e)) :
    Paged fetch l r := by
  refine ⟨?_, ?_, ?_⟩
  · rw [h]
    exact nofun
  · intro a ha
    rw [h] at ha
    cases ha
  · intro a ha
    rw [h] at ha
    cases ha

theorem paged_of_empty {a : Answer α} (h : fetch r.page r.limit = .ok a) (htotal : a.totalPages = 0)
    (hitems : a.items = []) : Paged fetch [] r := by
  refine ⟨?_, ?_, ?_⟩
  · rw [h]
    exact nofun
  · intro a' ha'
    obtain rfl : a = a' := Except.ok.inj (h.symm.trans ha')
    rw [htotal]
    rfl
  · intro a' ha' _
    obtain rfl : a = a' := Except.ok.inj (h.symm.trans ha')
    exact hitems

end Paged

end E2Mail.Imap.Pages
