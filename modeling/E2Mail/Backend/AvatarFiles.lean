import Mathlib.Data.List.Induction
import E2Mail.Lib.Separator
import E2Mail.Backend.ColdDatabase

/-!
# Avatar files

`PutAvatar` writes a file in the directory of the owner, and stores a path of it in the row of the
contact. `GetAvatar`, `DeleteAvatar` and the next `PutAvatar` go by the path in the row.

* `walk`, `render` — a path, component by component, and back.
* `avatarFile`, `storedFile` — the file that is written, and the one that is looked for.
* `AvatarsRight` — what two owners can expect of their avatars.
* `avatarsRight_iff` — which owners get it.
-/

namespace E2Mail.Backend.AddressBook

open Lib

/-! ## Cleaned paths -/

/-- The components of a path, one after the other, from where the stack is. -/
def walk (rooted : Bool) (stack : List (List Char)) (path : List Char) : List (List Char) :=
  (path.splitOn '/').foldl (cleanStep rooted) stack

/-- The text of a cleaned path. -/
def render (rooted : Bool) (stack : List (List Char)) : List Char :=
  match rooted, stack with
  | false, [] => ['.']
  | false, _ => ['/'].intercalate stack.reverse
  | true, _ => '/' :: ['/'].intercalate stack.reverse

/-- A component that stays in a cleaned path and goes down in it. -/
structure IsName (comp : List Char) : Prop where
  ne_nil : comp ≠ []
  ne_dot : comp ≠ ['.']
  ne_up : comp ≠ ['.', '.']
  solid : '/' ∉ comp

/-- The stacks of cleaned paths: those that are not rooted may begin with some `..`. -/
inductive Cleaned (rooted : Bool) : List (List Char) → Prop where
  | nil : Cleaned rooted []
  | name {stack : List (List Char)} {comp : List Char} (h : Cleaned rooted stack) (hc : IsName comp) :
      Cleaned rooted (comp :: stack)
  | up {stack : List (List Char)} (h : Cleaned rooted stack) (hup : ∀ comp ∈ stack, comp = ['.', '.'])
      (hr : rooted = false) : Cleaned rooted (['.', '.'] :: stack)

section Paths

variable {rooted : Bool} {stack stack' : List (List Char)} {comp path : List Char}

theorem filepathClean_eq (path : List Char) : filepathClean path =
    render (path.head? == some '/') (walk (path.head? == some '/') [] path) := by
  rw [filepathClean, walk]
  generalize (path.splitOn '/').foldl (cleanStep (path.head? == some '/')) [] = stack
  cases path.head? == some '/' <;> cases stack <;> rfl

theorem cleanStep_name (hc : IsName comp) : cleanStep rooted stack comp = comp :: stack := by
  unfold cleanStep
  rw [if_neg (not_or.mpr ⟨hc.ne_nil, hc.ne_dot⟩), if_neg hc.ne_up]

@[simp] theorem cleanStep_nil : cleanStep rooted stack [] = stack := by
  unfold cleanStep
  exact if_pos (.inl rfl)

@[simp] theorem cleanStep_dot : cleanStep rooted stack ['.'] = stack := by
  unfold cleanStep
  exact if_pos (.inr rfl)

theorem cleanStep_up_name {top : List Char} (htop : IsName top) :
    cleanStep rooted (top :: stack) ['.', '.'] = stack := by
  unfold cleanStep
  rw [if_neg (by decide), if_pos rfl]
  exact if_neg htop.ne_up

/-- Above the start of a path that is not rooted. -/
theorem cleanStep_up (hup : ∀ comp ∈ stack, comp = ['.', '.']) :
    cleanStep false stack ['.', '.'] = ['.', '.'] :: stack := by
  unfold cleanStep
  rw [if_neg (by decide), if_pos rfl]
  cases stack with
  | nil => rfl
  | cons top rest => exact if_pos (hup top List.mem_cons_self)

/-- The four kinds of components. -/
theorem comp_cases (hsolid : '/' ∉ comp) :
    comp = [] ∨ comp = ['.'] ∨ comp = ['.', '.'] ∨ IsName comp := by
  by_cases hnil : comp = []
  · exact .inl hnil
  by_cases hdot : comp = ['.']
  · exact .inr (.inl hdot)
  by_cases hup : comp = ['.', '.']
  · exact .inr (.inr (.inl hup))
  exact .inr (.inr (.inr ⟨hnil, hdot, hup, hsolid⟩))

theorem Cleaned.step (h : Cleaned rooted stack) (hsolid : '/' ∉ comp) :
    Cleaned rooted (cleanStep rooted stack comp) := by
  rcases comp_cases hsolid with rfl | rfl | rfl | hname
  · rwa [cleanStep_nil]
  · rwa [cleanStep_dot]
  · cases h with
    | nil =>
      cases rooted with
      | true => exact .nil
      | false => exact .up .nil (by simp) rfl
    | name h hc =>
      rw [cleanStep_up_name hc]
      exact h
    | up h hup hr =>
      subst hr
      have hall : ∀ comp ∈ ['.', '.'] :: _, comp = ['.', '.'] := List.forall_mem_cons.mpr ⟨rfl, hup⟩
      rw [cleanStep_up hall]
      exact .up (.up h hup rfl) hall rfl
  · rw [cleanStep_name hname]
    exact .name h hname

theorem Cleaned.foldl (h : Cleaned rooted stack) {comps : List (List Char)}
    (hsolid : ∀ comp ∈ comps, '/' ∉ comp) : Cleaned rooted (comps.foldl (cleanStep rooted) stack) := by
  induction comps generalizing stack with
  | nil => exact h
  | cons comp comps ih =>
    obtain ⟨hcomp, hcomps⟩ := List.forall_mem_cons.mp hsolid
    exact ih (h.step hcomp) hcomps

theorem Cleaned.walk (h : Cleaned rooted stack) (path : List Char) :
    Cleaned rooted (walk rooted stack path) :=
  h.foldl fun _ hcomp => Separator.not_mem_splitOn hcomp

theorem Cleaned.solid (h : Cleaned rooted stack) : ∀ comp ∈ stack, '/' ∉ comp := by
  induction h with
  | nil => simp
  | name _ hc ih => exact List.forall_mem_cons.mpr ⟨hc.solid, ih⟩
  | up _ _ _ ih => exact List.forall_mem_cons.mpr ⟨by decide, ih⟩

theorem Cleaned.ne_nil (h : Cleaned rooted stack) : ∀ comp ∈ stack, comp ≠ [] := by
  induction h with
  | nil => simp
  | name _ hc ih => exact List.forall_mem_cons.mpr ⟨hc.ne_nil, ih⟩
  | up _ _ _ ih => exact List.forall_mem_cons.mpr ⟨by decide, ih⟩

/-- A cleaned path leads where its stack is. -/
theorem Cleaned.refold (h : Cleaned rooted stack) :
    stack.reverse.foldl (cleanStep rooted) [] = stack := by
  induction h with
  | nil => rfl
  | name _ hc ih => rw [List.reverse_cons, List.foldl_concat, ih, cleanStep_name hc]
  | up _ hup hr ih =>
    subst hr
    rw [List.reverse_cons, List.foldl_concat, ih, cleanStep_up hup]

/-- **Cleaning a relative path first** leads to the same place. -/
theorem foldl_clean (comps : List (List Char)) (hsolid : ∀ comp ∈ comps, '/' ∉ comp) :
    (comps.foldl (cleanStep false) []).reverse.foldl (cleanStep rooted) stack =
      comps.foldl (cleanStep rooted) stack := by
  induction comps using List.reverseRecOn with
  | nil => rfl
  | append_singleton comps comp ih =>
    have hcomps : ∀ comp ∈ comps, '/' ∉ comp := fun c hc => hsolid c (List.mem_append_left _ hc)
    have hcomp : '/' ∉ comp := hsolid comp (by simp)
    have hclean : Cleaned false (comps.foldl (cleanStep false) []) := Cleaned.nil.foldl hcomps
    specialize ih hcomps
    rw [List.foldl_concat, List.foldl_concat, ← ih]
    generalize comps.foldl (cleanStep false) [] = inner at hclean ⊢
    rcases comp_cases hcomp with rfl | rfl | rfl | hname
    · rw [cleanStep_nil, cleanStep_nil]
    · rw [cleanStep_dot, cleanStep_dot]
    · cases hclean with
      | nil => rfl
      | name h hc =>
        -- the name is entered and left again
        rw [cleanStep_up_name hc, List.reverse_cons, List.foldl_concat, cleanStep_name hc,
          cleanStep_up_name hc]
      | up h hup _ =>
        rw [cleanStep_up (List.forall_mem_cons.mpr ⟨rfl, hup⟩), List.reverse_cons, List.foldl_concat]
    · rw [cleanStep_name hname, List.reverse_cons, List.foldl_concat]

@[simp] theorem walk_nil : walk rooted stack [] = stack := by
  rw [walk, List.splitOn_nil, List.foldl_cons, cleanStep_nil, List.foldl_nil]

theorem walk_append (left right : List Char) :
    walk rooted stack (left ++ '/' :: right) = walk rooted (walk rooted stack left) right := by
  rw [walk, List.splitOn_append_cons_self, List.foldl_append]
  rfl

theorem walk_solid (hsolid : '/' ∉ comp) : walk rooted stack comp = cleanStep rooted stack comp := by
  rw [walk, List.splitOn_eq_singleton hsolid, List.foldl_cons, List.foldl_nil]

theorem walk_intercalate (elems : List (List Char)) :
    walk rooted stack (['/'].intercalate elems) = elems.foldl (walk rooted) stack := by
  induction elems generalizing stack with
  | nil => exact walk_nil
  | cons elem rest ih =>
    cases rest with
    | nil => rw [List.intercalate_singleton, List.foldl_cons, List.foldl_nil]
    | cons next rest =>
      rw [List.intercalate_cons_cons, List.append_assoc, List.singleton_append, walk_append, ih]
      rfl

/-- A cleaned path is walked by its components. -/
theorem Cleaned.walk_render (h : Cleaned rooted stack) (rooted' : Bool) :
    AddressBook.walk rooted' stack' (render rooted stack) =
      stack.reverse.foldl (cleanStep rooted') stack' := by
  have hsolid := h.solid
  have hfold : AddressBook.walk rooted' stack' (['/'].intercalate stack.reverse) =
      stack.reverse.foldl (cleanStep rooted') stack' := by
    rw [walk_intercalate]
    refine List.foldl_ext _ _ _ fun inner comp hcomp => ?_
    exact walk_solid (hsolid comp (List.mem_reverse.mp hcomp))
  cases rooted with
  | true =>
    have hslash := @walk_append rooted' stack' [] (['/'].intercalate stack.reverse)
    rw [walk_nil, List.nil_append] at hslash
    exact hslash.trans hfold
  | false =>
    cases stack with
    | nil => exact @cleanStep_dot rooted' stack'
    | cons top rest => exact hfold

theorem Cleaned.walk_render_self (h : Cleaned rooted stack) :
    AddressBook.walk rooted [] (render rooted stack) = stack := by
  rw [h.walk_render, h.refold]

/-- A cleaned path starts with a slash if it is rooted. -/
theorem Cleaned.head?_render (h : Cleaned rooted stack) :
    ((render rooted stack).head? == some '/') = rooted := by
  cases rooted with
  | true => rfl
  | false =>
    cases hrev : stack.reverse with
    | nil =>
      rw [List.reverse_eq_nil_iff.mp hrev]
      rfl
    | cons comp comps =>
      have hmem : comp ∈ stack := List.mem_reverse.mp (hrev ▸ List.mem_cons_self)
      have hrender : render false stack = ['/'].intercalate (comp :: comps) := by
        cases stack with
        | nil => cases hmem
        | cons top rest => rw [← hrev]; rfl
      have hsolid := h.solid comp hmem
      obtain ⟨c, cs, rfl⟩ := List.exists_cons_of_ne_nil (h.ne_nil comp hmem)
      have hc : c ≠ '/' := fun heq => hsolid (heq ▸ List.mem_cons_self)
      rw [hrender]
      cases comps <;> simp [hc]

theorem Cleaned.render_ne_nil (h : Cleaned rooted stack) : render rooted stack ≠ [] := by
  cases rooted with
  | true => simp [render]
  | false =>
    cases stack with
    | nil => simp [render]
    | cons top rest =>
      intro hnil
      rcases Separator.intercalate_eq_nil_iff.mp hnil with hrev | hrev
      · simp at hrev
      · exact h.ne_nil [] (List.mem_reverse.mp (hrev ▸ List.mem_cons_self)) rfl

/-- Cleaned paths are the same if their stacks are. -/
theorem render_inj (h : Cleaned rooted stack) (h' : Cleaned rooted stack') :
    render rooted stack = render rooted stack' ↔ stack = stack' := by
  refine ⟨fun heq => ?_, fun heq => heq ▸ rfl⟩
  rw [← h.walk_render_self, heq, h'.walk_render_self]

/-- A component is passed over, is put on top, or takes off what is there. -/
theorem cleanStep_cases (rooted : Bool) (stack : List (List Char)) (comp : List Char) :
    cleanStep rooted stack comp = stack ∨ cleanStep rooted stack comp = comp :: stack ∨
      cleanStep rooted stack comp = stack.tail := by
  unfold cleanStep
  split
  · exact .inl rfl
  split
  · cases stack with
    | nil => cases rooted <;> simp
    | cons top rest =>
      dsimp only
      split
      · exact .inr (.inl rfl)
      · exact .inr (.inr rfl)
  · exact .inr (.inl rfl)

/-- What is on top of the stack in the end was put there or was there before. -/
theorem foldl_cleanStep_split (comps : List (List Char)) :
    ∃ pushed rest, comps.foldl (cleanStep rooted) stack = pushed ++ rest ∧ rest <:+ stack ∧
      ∀ comp ∈ pushed, comp ∈ comps := by
  induction comps using List.reverseRecOn with
  | nil => exact ⟨[], stack, rfl, List.suffix_refl _, by simp⟩
  | append_singleton comps comp ih =>
    obtain ⟨pushed, rest, heq, hrest, hpushed⟩ := ih
    have hkept : ∀ c ∈ pushed, c ∈ comps ++ [comp] :=
      fun c hc => List.mem_append_left _ (hpushed c hc)
    rw [List.foldl_concat, heq]
    rcases cleanStep_cases rooted (pushed ++ rest) comp with h | h | h
    · exact ⟨pushed, rest, h, hrest, hkept⟩
    · refine ⟨comp :: pushed, rest, h, hrest, List.forall_mem_cons.mpr ⟨by simp, hkept⟩⟩
    · cases pushed with
      | nil => exact ⟨[], rest.tail, h, (List.tail_suffix rest).trans hrest, by simp⟩
      | cons top pushed =>
        exact ⟨pushed, rest, h, hrest, fun c hc => hkept c (List.mem_cons_of_mem _ hc)⟩

/-- What a path puts on a stack is one of its components. -/
theorem mem_of_walk_eq {top : List Char} (h : walk rooted stack path = top :: stack) :
    top ∈ path.splitOn '/' := by
  obtain ⟨pushed, rest, heq, hrest, hpushed⟩ :=
    @foldl_cleanStep_split rooted stack (path.splitOn '/')
  rw [walk, heq] at h
  have hle := hrest.length_le
  cases pushed with
  | nil =>
    have hlen := congrArg List.length h
    rw [List.nil_append, List.length_cons] at hlen
    omega
  | cons first pushed =>
    obtain rfl := (List.cons.inj h).1
    exact hpushed _ List.mem_cons_self

/-- Names lead down from where the stack is. -/
theorem foldl_names {comps : List (List Char)} (h : ∀ comp ∈ comps, IsName comp) :
    comps.foldl (walk rooted) stack = comps.reverse ++ stack := by
  induction comps generalizing stack with
  | nil => rfl
  | cons comp comps ih =>
    obtain ⟨hcomp, hcomps⟩ := List.forall_mem_cons.mp h
    rw [List.foldl_cons, ih hcomps, walk_solid hcomp.solid, cleanStep_name hcomp]
    simp

theorem render_down (h : stack ≠ []) (comps : List (List Char)) :
    render rooted (comps.reverse ++ stack) = ['/'].intercalate (render rooted stack :: comps) := by
  have hjoin := @Separator.intercalate_append Char '/' _ (List.reverse_ne_nil_iff.mpr h) comps
  have hrev : (comps.reverse ++ stack).reverse = stack.reverse ++ comps := by simp
  obtain ⟨top, rest, hstack⟩ := List.exists_cons_of_ne_nil h
  cases rooted with
  | true =>
    rw [render, hrev, hjoin, render, List.intercalate_cons_cons_left]
  | false =>
    have hsame : ∀ l : List (List Char), l ≠ [] → render false l = ['/'].intercalate l.reverse :=
      fun l hl => by cases l <;> first | exact absurd rfl hl | rfl
    rw [hsame _ (List.append_ne_nil_of_right_ne_nil _ h), hrev, hjoin, hsame _ h]

/-- **`filepath.Join`** walks along its elements. -/
theorem filepathJoin_eq {elems : List (List Char)} (h : elems.flatten ≠ []) :
    filepathJoin elems = render (elems.flatten.head? == some '/')
      (elems.foldl (walk (elems.flatten.head? == some '/')) []) := by
  have hwalk : elems.foldl (walk (elems.flatten.head? == some '/')) [] =
      (elems.filter (· ≠ [])).foldl (walk (elems.flatten.head? == some '/')) [] := by
    rw [List.foldl_filter]
    refine List.foldl_ext _ _ _ fun stack elem _ => ?_
    by_cases helem : elem = []
    · simp [helem]
    · simp [helem]
  have hflat : (elems.filter (· ≠ [])).flatten = elems.flatten := by
    simpa using List.flatten_filter_ne_nil (L := elems)
  rw [hwalk, ← hflat, filepathJoin]
  rw [← hflat] at h
  cases hl : elems.filter (· ≠ []) with
  | nil => rw [hl] at h; exact absurd rfl h
  | cons first rest =>
    have hfirst : first ≠ [] := by
      have hmem : first ∈ elems.filter (· ≠ []) := hl ▸ List.mem_cons_self
      simpa using (List.mem_filter.mp hmem).2
    obtain ⟨c, cs, rfl⟩ := List.exists_cons_of_ne_nil hfirst
    have hhead : (['/'].intercalate ((c :: cs) :: rest)).head? = ((c :: cs) :: rest).flatten.head? := by
      cases rest <;> simp
    dsimp only
    rw [filepathClean_eq, hhead, walk_intercalate]

end Paths

/-! ## The files -/

section Files

variable (P : Params) (dataDir owner : String)

/-- The owner in the stored path. -/
def spellAt : List Char := Text.replaceAll "@".toList "_at_".toList (P.lower owner).toList

/-- The owner in `avatarDir`. -/
def safeOwner : List Char := Text.replaceAll "/".toList "_".toList (spellAt P owner)

/-- `avatarDir`. -/
def avatarDir : String :=
  String.ofList (filepathJoin [dataDir.toList, "avatars".toList, safeOwner P owner])

/-- The file that `PutAvatar` writes. -/
def avatarFile (id ext : String) : String :=
  String.ofList (filepathJoin [(avatarDir P dataDir owner).toList, (id ++ ext).toList])

/-- The file that `GetAvatar` opens, and `PutAvatar` and `DeleteAvatar` remove. -/
def storedFile (c : Contact) : String :=
  String.ofList (filepathJoin [dataDir.toList, c.avatarPath.toList])

/-- The directory of all avatars. -/
def avatarsDir : String := String.ofList (filepathJoin [dataDir.toList, "avatars".toList])

/-- A path goes down from a directory. -/
def Inside (dir path : String) : Prop :=
  ∃ comps, comps ≠ [] ∧ (∀ comp ∈ comps, IsName comp) ∧
    path.toList = ['/'].intercalate (dir.toList :: comps)

/-- What the owner of an avatar expects, whatever the contact and the kind of image: the file
that is written is the one that is looked for, and it is in the directory of all avatars. -/
structure AvatarRight : Prop where
  found : ∀ (c : Contact) (contentType ext : String), '/' ∉ c.id.toList →
    avatarExt contentType = some ext →
    storedFile dataDir { c with avatarPath := avatarPath P owner c.id ext } =
      avatarFile P dataDir owner c.id ext
  inside : ∀ (id contentType ext : String), '/' ∉ id.toList → avatarExt contentType = some ext →
    Inside (avatarsDir dataDir) (avatarFile P dataDir owner id ext)

/-- And what two owners expect. -/
structure AvatarsRight (owner' : String) : Prop where
  mine : AvatarRight P dataDir owner
  yours : AvatarRight P dataDir owner'
  apart : avatarDir P dataDir owner ≠ avatarDir P dataDir owner'

end Files

section Stacks

variable {P : Params} {dataDir owner id ext contentType : String}

/-- A path that begins with the data directory is rooted if that is. -/
def rooted (dataDir : String) : Bool := dataDir.toList.head? == some '/'

/-- The stack of the directory of all avatars. -/
def avatarsStack (dataDir : String) : List (List Char) :=
  "avatars".toList :: walk (rooted dataDir) [] dataDir.toList

theorem isName_avatars : IsName "avatars".toList := by
  constructor <;> decide

theorem cleaned_avatarsStack : Cleaned (rooted dataDir) (avatarsStack dataDir) :=
  .name (Cleaned.nil.walk _) isName_avatars

/-- The file's name is one component. -/
theorem isName_file (hid : '/' ∉ id.toList) (hext : avatarExt contentType = some ext) :
    IsName (id ++ ext).toList := by
  have hexts : ext ∈ [".jpg", ".png", ".webp", ".gif"] := by
    simp only [avatarExt] at hext
    split at hext
    · simp_all
    split at hext
    · simp_all
    split at hext
    · simp_all
    split at hext <;> simp_all
  have hlong : ∀ ext ∈ [".jpg", ".png", ".webp", ".gif"], 2 < ext.toList.length ∧ '/' ∉ ext.toList := by
    decide
  obtain ⟨hlen, hsolid⟩ := hlong ext hexts
  have hlength : 2 < (id ++ ext).toList.length := by
    rw [String.toList_append, List.length_append]
    omega
  refine ⟨?_, ?_, ?_, ?_⟩
  · exact fun h => by simp [h] at hlength
  · exact fun h => by simp [h] at hlength
  · exact fun h => by simp [h] at hlength
  · rw [String.toList_append, List.mem_append]
    exact not_or.mpr ⟨hid, hsolid⟩

theorem filepathJoin_dataDir (elems : List (List Char)) :
    filepathJoin (dataDir.toList :: "avatars".toList :: elems) =
      render (rooted dataDir) (elems.foldl (walk (rooted dataDir)) (avatarsStack dataDir)) := by
  have hhead : ((dataDir.toList :: "avatars".toList :: elems).flatten.head? == some '/') =
      rooted dataDir := by
    rw [rooted]
    cases dataDir.toList <;> rfl
  have hne : (dataDir.toList :: "avatars".toList :: elems).flatten ≠ [] := by
    simp
  rw [filepathJoin_eq hne, hhead, List.foldl_cons, List.foldl_cons, walk_solid isName_avatars.solid,
    cleanStep_name isName_avatars]
  rfl

theorem not_mem_safeOwner : '/' ∉ safeOwner P owner := by
  intro h
  rw [safeOwner, show "/".toList = ['/'] from rfl, Text.replaceAll_singleton] at h
  obtain ⟨c, -, hc⟩ := List.mem_flatMap.mp h
  split at hc
  · simp at hc
  · rename_i hne
    exact hne (List.mem_singleton.mp hc).symm

theorem avatarDir_eq : (avatarDir P dataDir owner).toList =
    render (rooted dataDir) (cleanStep (rooted dataDir) (avatarsStack dataDir) (safeOwner P owner)) := by
  rw [avatarDir, String.toList_ofList, filepathJoin_dataDir, List.foldl_cons, List.foldl_nil,
    walk_solid not_mem_safeOwner]

theorem avatarsDir_eq :
    (avatarsDir dataDir).toList = render (rooted dataDir) (avatarsStack dataDir) := by
  rw [avatarsDir, String.toList_ofList, filepathJoin_dataDir, List.foldl_nil]

/-- Where the file is written. -/
theorem avatarFile_eq (hfile : IsName (id ++ ext).toList) : (avatarFile P dataDir owner id ext).toList =
    render (rooted dataDir) ((id ++ ext).toList ::
      cleanStep (rooted dataDir) (avatarsStack dataDir) (safeOwner P owner)) := by
  have hclean : Cleaned (rooted dataDir)
      (cleanStep (rooted dataDir) (avatarsStack dataDir) (safeOwner P owner)) :=
    cleaned_avatarsStack.step not_mem_safeOwner
  have hhead : ([(avatarDir P dataDir owner).toList, (id ++ ext).toList].flatten.head? == some '/') =
      rooted dataDir := by
    obtain ⟨c, cs, hc⟩ := List.exists_cons_of_ne_nil hclean.render_ne_nil
    have hrooted := hclean.head?_render
    rw [hc] at hrooted
    rw [avatarDir_eq, hc]
    exact hrooted
  have hne : [(avatarDir P dataDir owner).toList, (id ++ ext).toList].flatten ≠ [] := by
    simp [avatarDir_eq, hclean.render_ne_nil]
  rw [avatarFile, String.toList_ofList, filepathJoin_eq hne, hhead, List.foldl_cons, List.foldl_cons,
    List.foldl_nil, avatarDir_eq, hclean.walk_render_self, walk_solid hfile.solid, cleanStep_name hfile]

/-- Where the file is looked for. -/
theorem storedFile_eq (hfile : IsName (id ++ ext).toList) (c : Contact) :
    (storedFile dataDir { c with avatarPath := avatarPath P owner id ext }).toList =
      render (rooted dataDir) ((id ++ ext).toList ::
        walk (rooted dataDir) (avatarsStack dataDir) (spellAt P owner)) := by
  -- the path in the row is cleaned from nowhere, and then joined
  have hparts : ∀ comp ∈ "avatars".toList :: (spellAt P owner).splitOn '/' ++ [(id ++ ext).toList],
      '/' ∉ comp := by
    rintro comp hcomp
    rcases List.mem_append.mp hcomp with hcomp | hcomp
    · rcases List.mem_cons.mp hcomp with rfl | hcomp
      · exact isName_avatars.solid
      · exact Separator.not_mem_splitOn hcomp
    · obtain rfl := List.mem_singleton.mp hcomp
      exact hfile.solid
  have hwalks : ∀ (r : Bool) (stack : List (List Char)),
      ["avatars".toList, spellAt P owner, (id ++ ext).toList].foldl (walk r) stack =
        ("avatars".toList :: (spellAt P owner).splitOn '/' ++ [(id ++ ext).toList]).foldl
          (cleanStep r) stack := by
    intro r stack
    rw [List.cons_append, List.foldl_cons, List.foldl_cons, List.foldl_cons, List.foldl_nil,
      List.foldl_cons, List.foldl_append, walk_solid isName_avatars.solid, walk_solid hfile.solid]
    rfl
  have hrel : (avatarPath P owner id ext).toList = render false
      (("avatars".toList :: (spellAt P owner).splitOn '/' ++ [(id ++ ext).toList]).foldl
        (cleanStep false) []) := by
    have hpath : (avatarPath P owner id ext).toList =
        filepathJoin ["avatars".toList, spellAt P owner, (id ++ ext).toList] := by
      rw [avatarPath, String.toList_ofList]
      rfl
    have hne : ["avatars".toList, spellAt P owner, (id ++ ext).toList].flatten ≠ [] := by simp
    rw [hpath, filepathJoin_eq hne, ← hwalks]
    rfl
  have hclean : Cleaned false (("avatars".toList :: (spellAt P owner).splitOn '/' ++
      [(id ++ ext).toList]).foldl (cleanStep false) []) := Cleaned.nil.foldl hparts
  obtain ⟨c, cs, hc⟩ := List.exists_cons_of_ne_nil hclean.render_ne_nil
  have hrooted := hclean.head?_render
  have hhead : ([dataDir.toList, (avatarPath P owner id ext).toList].flatten.head? == some '/') =
      rooted dataDir := by
    rw [rooted]
    cases dataDir.toList with
    | nil =>
      rw [hrel, hc]
      rw [hc] at hrooted
      exact hrooted
    | cons d ds => rfl
  have hne : [dataDir.toList, (avatarPath P owner id ext).toList].flatten ≠ [] := by
    rw [hrel, hc]
    simp
  rw [storedFile, String.toList_ofList]
  dsimp only
  rw [filepathJoin_eq hne, hhead, List.foldl_cons, List.foldl_cons, List.foldl_nil, hrel,
    hclean.walk_render, foldl_clean _ hparts, ← hwalks, List.foldl_cons, List.foldl_cons,
    List.foldl_cons, List.foldl_nil, walk_solid hfile.solid, cleanStep_name hfile,
    walk_solid isName_avatars.solid, cleanStep_name isName_avatars]
  rfl

/-! ## The owners -/

theorem mem_spellAt : '/' ∈ spellAt P owner ↔ '/' ∈ (P.lower owner).toList := by
  have hat : '/' ∉ "_at_".toList := by decide
  rw [spellAt, show "@".toList = ['@'] from rfl, Text.replaceAll_singleton, List.mem_flatMap]
  constructor
  · rintro ⟨c, hc, hmem⟩
    split at hmem
    · exact absurd hmem hat
    · exact List.mem_singleton.mp hmem ▸ hc
  · exact fun hmem => ⟨'/', hmem, by simp⟩

/-- Without a slash the owner's directory is the one in the stored path. -/
theorem safeOwner_eq (h : '/' ∉ spellAt P owner) : safeOwner P owner = spellAt P owner := by
  rw [safeOwner, show "/".toList = ['/'] from rfl, Text.replaceAll_singleton]
  have hsame : ∀ s : List Char, '/' ∉ s →
      (s.flatMap fun c => if c = '/' then "_".toList else [c]) = s := by
    intro s
    induction s with
    | nil => exact fun _ => rfl
    | cons c s ih =>
      intro hs
      obtain ⟨hc, hs⟩ := not_or.mp (List.mem_cons.not.mp hs)
      rw [List.flatMap_cons, if_neg (Ne.symm hc), ih hs]
      rfl
  exact hsame _ h

theorem length_safeOwner : (safeOwner P owner).length = (spellAt P owner).length := by
  rw [safeOwner, show "/".toList = ['/'] from rfl, Text.replaceAll_singleton]
  induction spellAt P owner with
  | nil => rfl
  | cons c s ih =>
    rw [List.flatMap_cons, List.length_append, ih, List.length_cons]
    split <;> simp [Nat.add_comm]

/-- With a slash there is an underscore for it. -/
theorem isName_safeOwner (h : '/' ∈ spellAt P owner) : IsName (safeOwner P owner) := by
  have hmem : '_' ∈ safeOwner P owner := by
    rw [safeOwner, show "/".toList = ['/'] from rfl, Text.replaceAll_singleton]
    exact List.mem_flatMap.mpr ⟨'/', h, by simp⟩
  refine ⟨?_, ?_, ?_, not_mem_safeOwner⟩
  · exact fun heq => by simp [heq] at hmem
  · exact fun heq => by simp [heq] at hmem
  · exact fun heq => by simp [heq] at hmem

/-- **The file is found** if and only if the owner has no slash. -/
theorem storedFile_eq_iff (hfile : IsName (id ++ ext).toList) (c : Contact) :
    storedFile dataDir { c with avatarPath := avatarPath P owner id ext } =
      avatarFile P dataDir owner id ext ↔ '/' ∉ (P.lower owner).toList := by
  have hread : Cleaned (rooted dataDir) ((id ++ ext).toList ::
      walk (rooted dataDir) (avatarsStack dataDir) (spellAt P owner)) :=
    .name (cleaned_avatarsStack.walk _) hfile
  have hwritten : Cleaned (rooted dataDir) ((id ++ ext).toList ::
      cleanStep (rooted dataDir) (avatarsStack dataDir) (safeOwner P owner)) :=
    .name (cleaned_avatarsStack.step not_mem_safeOwner) hfile
  rw [← String.toList_inj, storedFile_eq hfile, avatarFile_eq hfile, render_inj hread hwritten,
    List.cons_inj_right, ← mem_spellAt]
  constructor
  · intro heq hslash
    rw [cleanStep_name (isName_safeOwner hslash)] at heq
    have hlt := Separator.length_lt_of_mem_splitOn hslash (mem_of_walk_eq heq)
    exact absurd length_safeOwner (Nat.ne_of_lt hlt)
  · intro hsolid
    rw [safeOwner_eq hsolid, walk_solid hsolid]

/-- **The file is in the directory** of all avatars if and only if the owner's directory is not
the one above. -/
theorem inside_iff (hfile : IsName (id ++ ext).toList) :
    Inside (avatarsDir dataDir) (avatarFile P dataDir owner id ext) ↔
      safeOwner P owner ≠ ['.', '.'] := by
  have hdown := fun comps => @render_down (rooted dataDir) (avatarsStack dataDir)
    (List.cons_ne_nil _ _) comps
  rw [Inside, avatarFile_eq hfile, avatarsDir_eq]
  constructor
  · rintro ⟨comps, hne, hnames, hpath⟩ hup
    have hwritten : Cleaned (rooted dataDir) ((id ++ ext).toList ::
        walk (rooted dataDir) [] dataDir.toList) := .name (Cleaned.nil.walk _) hfile
    have hstack : Cleaned (rooted dataDir) (avatarsStack dataDir) := cleaned_avatarsStack
    rw [hup, avatarsStack, cleanStep_up_name isName_avatars] at hpath
    have hwalk := congrArg (walk (rooted dataDir) []) hpath
    rw [hwritten.walk_render_self, walk_intercalate, List.foldl_cons] at hwalk
    rw [avatarsStack] at hstack
    rw [hstack.walk_render_self, foldl_names hnames] at hwalk
    have hlen := congrArg List.length hwalk
    have hpos := List.length_pos_iff.mpr hne
    simp only [List.length_cons, List.length_append, List.length_reverse] at hlen
    omega
  · intro hup
    have hfiles : ∀ comp ∈ [(id ++ ext).toList], IsName comp := by simpa using hfile
    rcases comp_cases (@not_mem_safeOwner P owner) with hnil | hdot | hup' | hname
    · refine ⟨[(id ++ ext).toList], by simp, hfiles, ?_⟩
      rw [hnil, cleanStep_nil, ← hdown]
      rfl
    · refine ⟨[(id ++ ext).toList], by simp, hfiles, ?_⟩
      rw [hdot, cleanStep_dot, ← hdown]
      rfl
    · exact absurd hup' hup
    · refine ⟨[safeOwner P owner, (id ++ ext).toList], by simp,
        List.forall_mem_cons.mpr ⟨hname, hfiles⟩, ?_⟩
      rw [cleanStep_name hname, ← hdown]
      rfl

theorem safeOwner_ne_nil (h : P.lower owner ≠ "") : safeOwner P owner ≠ [] := by
  intro hnil
  have hspell : spellAt P owner = [] := by
    rw [← List.length_eq_zero_iff, ← length_safeOwner, hnil]
    rfl
  rw [spellAt, show "@".toList = ['@'] from rfl, Text.replaceAll_singleton,
    List.flatMap_eq_nil_iff] at hspell
  refine h (String.toList_inj.mp (List.eq_nil_iff_forall_not_mem.mpr fun c hc => ?_))
  have hempty := hspell c hc
  split at hempty <;> simp at hempty

/-- **The directories are the same** if and only if the owners' names in them are. -/
theorem avatarDir_eq_iff {owner' : String} (h : P.lower owner ≠ "") (h' : P.lower owner' ≠ "") :
    avatarDir P dataDir owner = avatarDir P dataDir owner' ↔
      safeOwner P owner = safeOwner P owner' := by
  have hclean : ∀ o, Cleaned (rooted dataDir)
      (cleanStep (rooted dataDir) (avatarsStack dataDir) (safeOwner P o)) :=
    fun o => cleaned_avatarsStack.step not_mem_safeOwner
  rw [← String.toList_inj, avatarDir_eq, avatarDir_eq, render_inj (hclean owner) (hclean owner')]
  refine ⟨fun heq => ?_, fun heq => by rw [heq]⟩
  have hup : cleanStep (rooted dataDir) (avatarsStack dataDir) ['.', '.'] =
      walk (rooted dataDir) [] dataDir.toList := cleanStep_up_name isName_avatars
  have hstack : (avatarsStack dataDir).length = (walk (rooted dataDir) [] dataDir.toList).length + 1 :=
    rfl
  have hlen := congrArg List.length heq
  -- one level up, the directory itself, or one level down
  rcases comp_cases (@not_mem_safeOwner P owner) with hs | hs | hs | hs
  · exact absurd hs (safeOwner_ne_nil h)
  all_goals rcases comp_cases (@not_mem_safeOwner P owner') with hs' | hs' | hs' | hs'
  all_goals first
    | exact absurd hs' (safeOwner_ne_nil h')
    | exact hs.trans hs'.symm
    | skip
  · simp [hs, hs', hup, hstack] at hlen
  · simp [hs, cleanStep_name hs'] at hlen
  · simp [hs, hs', hup, hstack] at hlen
  · rw [hs, cleanStep_name hs', hup, List.length_cons] at hlen
    omega
  · simp [cleanStep_name hs, hs'] at hlen
  · rw [cleanStep_name hs, hs', hup, List.length_cons] at hlen
    omega
  · rw [cleanStep_name hs, cleanStep_name hs'] at heq
    exact (List.cons.inj heq).1

/-- The owner's directory is the one above if and only if the owner is called so. -/
theorem safeOwner_eq_up (h : '/' ∉ (P.lower owner).toList) :
    safeOwner P owner = ['.', '.'] ↔ P.lower owner = ".." := by
  rw [safeOwner_eq (mem_spellAt.not.mpr h), spellAt, show "@".toList = ['@'] from rfl,
    Text.replaceAll_singleton]
  refine ⟨fun heq => ?_, fun heq => by rw [heq]; rfl⟩
  have hat : '@' ∉ (P.lower owner).toList := by
    intro hmem
    have hunder : '_' ∈ (P.lower owner).toList.flatMap
        fun c => if c = '@' then "_at_".toList else [c] :=
      List.mem_flatMap.mpr ⟨'@', hmem, by decide⟩
    rw [heq] at hunder
    simp at hunder
  have hsame : ∀ s : List Char, '@' ∉ s →
      (s.flatMap fun c => if c = '@' then "_at_".toList else [c]) = s := by
    intro s
    induction s with
    | nil => exact fun _ => rfl
    | cons c s ih =>
      intro hs
      obtain ⟨hc, hs⟩ := not_or.mp (List.mem_cons.not.mp hs)
      rw [List.flatMap_cons, if_neg (Ne.symm hc), ih hs]
      rfl
  rw [hsame _ hat] at heq
  exact String.toList_inj.mp heq

theorem avatarRight_iff : AvatarRight P dataDir owner ↔
    '/' ∉ (P.lower owner).toList ∧ P.lower owner ≠ ".." := by
  have hpng : avatarExt "image/png" = some ".png" := by decide
  have hsolid : '/' ∉ "u".toList := by decide
  constructor
  · intro h
    have hslash := (storedFile_eq_iff (isName_file hsolid hpng) _).mp
      (h.found ⟨"u", owner, ⟨"", "", "", "", "", ""⟩, "", false, none, 0⟩ _ _ hsolid hpng)
    have hup := (inside_iff (isName_file hsolid hpng)).mp (h.inside "u" _ _ hsolid hpng)
    exact ⟨hslash, fun heq => hup ((safeOwner_eq_up hslash).mpr heq)⟩
  · rintro ⟨hslash, hup⟩
    refine ⟨fun c contentType ext hid hext => ?_, fun id contentType ext hid hext => ?_⟩
    · exact (storedFile_eq_iff (isName_file hid hext) c).mpr hslash
    · exact (inside_iff (isName_file hid hext)).mpr fun heq => hup ((safeOwner_eq_up hslash).mp heq)

end Stacks

section Owners

variable {P : Params} {dataDir : String}

/-- **The stored path is the one that is read** by the requests for the contact that follow: it is
in the contact that they get from the store. -/
theorem avatarPath_of_stores {M : Outside} {c : BookCall} {w : BookState} {path : String}
    (hsealed : ∀ r ∈ w.contacts.rows, SealedRow P r) (hs : Stores P M c w path) :
    ∃ id form owner dek, c.req = .putAvatar id form ∧ ownerFromCtx P c.sess? = some (owner, dek) ∧
      ∀ (A : Around) (dek' : Option Nat) (contact : Contact),
        Store.getAddressContact P A owner id dek' (c.step P M w).2 = .ok (some contact) →
          contact.avatarPath = path := by
  obtain ⟨id, form, owner, dek, r, columns, hreq, hctx, hr, hown, hid, hrows⟩ :=
    stores_written hsealed hs
  refine ⟨id, form, owner, dek, hreq, hctx, fun A dek' contact hget => ?_⟩
  rw [Store.getAddressContact] at hget
  split at hget
  · cases hget
  split at hget
  · cases hget
  rename_i s hs
  have hmine : s.ownerID = cryptoOwnerID P owner ∧ s.id = id := by simpa using List.find?_some hs
  have hmem := List.mem_of_find?_eq_some hs
  split at hget
  · cases hget
  rename_i c' hscan
  obtain rfl := Option.some.inj (Except.ok.inj hget)
  have hpath : c'.avatarPath = s.avatarPath := by
    rw [scanAddressContact] at hscan
    split at hscan
    · cases hscan
    · exact (congrArg Contact.avatarPath (Except.ok.inj hscan)).symm
  -- the row that was found is the one that was written
  rw [hrows, ContactTable.written, List.mem_map] at hmem
  obtain ⟨t, -, ht⟩ := hmem
  rw [hpath, ← ht]
  split
  · rfl
  · rename_i hother
    rw [if_neg hother] at ht
    rw [ht] at hother
    exact absurd ⟨hmine.1.trans hown.symm, hmine.2.trans hid.symm⟩ hother

theorem LowerCase.lower_normalizeEmail (hP : LowerCase P) (e : String) :
    P.lower (P.normalizeEmail e) = P.normalizeEmail e := by
  rw [Params.normalizeEmail, Params.lower, Params.lower, String.toList_ofList, List.map_map]
  exact congrArg String.ofList (List.map_congr_left fun c _ => hP.idem c)

/-- **The avatars of two owners**, as sessions name them, are found, are in the directory of all
avatars and do not share one of their own, if and only if no owner has a slash or is `..`, and the
two are different with each `@` spelled out. -/
theorem avatarsRight_iff (hP : LowerCase P) {e e' : String} (he : P.normalizeEmail e ≠ "")
    (he' : P.normalizeEmail e' ≠ "") :
    AvatarsRight P dataDir (P.normalizeEmail e) (P.normalizeEmail e') ↔
      ('/' ∉ (P.normalizeEmail e).toList ∧ P.normalizeEmail e ≠ "..") ∧
      ('/' ∉ (P.normalizeEmail e').toList ∧ P.normalizeEmail e' ≠ "..") ∧
      Text.replaceAll "@".toList "_at_".toList (P.normalizeEmail e).toList ≠
        Text.replaceAll "@".toList "_at_".toList (P.normalizeEmail e').toList := by
  have hlow := hP.lower_normalizeEmail e
  have hlow' := hP.lower_normalizeEmail e'
  have hspell : ∀ o, P.lower o = o →
      spellAt P o = Text.replaceAll "@".toList "_at_".toList o.toList := by
    intro o ho
    rw [spellAt, ho]
  have hright : ∀ o, P.lower o = o → (AvatarRight P dataDir o ↔ '/' ∉ o.toList ∧ o ≠ "..") := by
    intro o ho
    rw [avatarRight_iff, ho]
  rw [← hspell _ hlow, ← hspell _ hlow']
  generalize P.normalizeEmail e = o at he hlow
  generalize P.normalizeEmail e' = o' at he' hlow'
  have hapart := @avatarDir_eq_iff P dataDir o o' (by rwa [hlow]) (by rwa [hlow'])
  have hsafe : ∀ o, P.lower o = o → '/' ∉ o.toList → safeOwner P o = spellAt P o := by
    intro o ho hslash
    exact safeOwner_eq (mem_spellAt.not.mpr (by rwa [ho]))
  constructor
  · rintro ⟨hmine, hyours, hne⟩
    have hfst := (hright o hlow).mp hmine
    have hsnd := (hright o' hlow').mp hyours
    refine ⟨hfst, hsnd, fun heq => hne (hapart.mpr ?_)⟩
    rw [hsafe o hlow hfst.1, hsafe o' hlow' hsnd.1, heq]
  · rintro ⟨hfst, hsnd, hne⟩
    refine ⟨(hright o hlow).mpr hfst, (hright o' hlow').mpr hsnd, fun heq => hne ?_⟩
    rw [← hsafe o hlow hfst.1, ← hsafe o' hlow' hsnd.1]
    exact hapart.mp heq

/-- Two owners at the same host. -/
theorem avatarsRight_sample : AvatarsRight .sample "/data" "ann@x.org" "bob@x.org" := by
  have hann : Params.sample.normalizeEmail "ann@x.org" = "ann@x.org" := by decide
  have hbob : Params.sample.normalizeEmail "bob@x.org" = "bob@x.org" := by decide
  have h := @avatarsRight_iff .sample "/data" lowerCase_sample "ann@x.org" "bob@x.org"
  rw [hann, hbob] at h
  refine (h (by decide) (by decide)).mpr ⟨⟨by decide, by decide⟩, ⟨by decide, by decide⟩, by decide⟩

/-- An owner with a slash: the file is written in one directory and looked for in another. -/
theorem not_avatarsRight : ¬ ∀ (P : Params) (dataDir e e' : String), LowerCase P →
    P.normalizeEmail e ≠ "" → P.normalizeEmail e' ≠ "" →
    P.normalizeEmail e ≠ P.normalizeEmail e' →
    AvatarsRight P dataDir (P.normalizeEmail e) (P.normalizeEmail e') := by
  intro h
  have hfound := (h .sample "/data" "ann/lee@x.org" "bob@x.org" lowerCase_sample (by decide)
    (by decide) (by decide)).mine.found ⟨"u", "", ⟨"", "", "", "", "", ""⟩, "", false, none, 0⟩
    "image/png" ".png" (by decide) (by decide)
  have hne : storedFile "/data" ⟨"u", "", ⟨"", "", "", "", "", ""⟩,
      avatarPath .sample (Params.sample.normalizeEmail "ann/lee@x.org") "u" ".png", false, none, 0⟩ ≠
      avatarFile .sample "/data" (Params.sample.normalizeEmail "ann/lee@x.org") "u" ".png" := by
    decide
  exact hne hfound

end Owners

end E2Mail.Backend.AddressBook
