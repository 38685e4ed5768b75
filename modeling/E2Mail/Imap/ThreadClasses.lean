import E2Mail.Imap.ThreadGroups
import Mathlib.Logic.Relation
import Mathlib.Order.Bounds.Basic

/-!
# What the threads are

The classes of `GroupThreads` without its passes: which messages they join, which they do
not, and how far they depend on the order of the messages.

* `LastResolves` — what the last candidate of a message stands for;
* `Linked` — one of two messages refers to the other, or they have the same subject;
* `groupThreads_classes` — a root is the least of its class, a message is with what its last
  candidate stands for, and a class holds together by links;
* `FirstRef` — the references that are followed when none leads back;
* `groupThreads_perm` — then the order of the messages changes no class.
-/

namespace E2Mail.Imap

open Lib Relation

variable {H : Headers} {inputs : List ThreadInput}

/-! ## What a message refers to -/

/-- The first of the messages that have the id. -/
def FirstWith (inputs : List ThreadInput) (id : String) (y : ThreadInput) : Prop :=
  id ≠ "" ∧ y.messageID = id ∧
    ∃ before after, inputs = before ++ y :: after ∧ ∀ z ∈ before, z.messageID ≠ id

/-- The candidate stands for a message, which is not the one that has the candidate. -/
def Resolves (H : Headers) (inputs : List ThreadInput) (inp : ThreadInput) (cand : String)
    (y : ThreadInput) : Prop :=
  FirstWith inputs (normalizeMsgID H cand) y ∧ normalizeMsgID H cand ≠ inp.messageID ∧
    y.uid ≠ inp.uid

/-- A reference or the In-Reply-To of the message stands for the other. -/
def Refers (H : Headers) (inputs : List ThreadInput) (inp y : ThreadInput) : Prop :=
  (∃ ref ∈ inp.references, Resolves H inputs inp ref y) ∨
    inp.inReplyTo ≠ "" ∧ Resolves H inputs inp inp.inReplyTo y

/-- What the last candidate of the message stands for: the last of the references that stand
for a message, or the In-Reply-To where none does. -/
def LastResolves (H : Headers) (inputs : List ThreadInput) (inp y : ThreadInput) : Prop :=
  (∃ before ref after, inp.references = before ++ ref :: after ∧ Resolves H inputs inp ref y ∧
    ∀ ref' ∈ after, ∀ z, ¬Resolves H inputs inp ref' z) ∨
  (∀ ref ∈ inp.references, ∀ z, ¬Resolves H inputs inp ref z) ∧
    inp.inReplyTo ≠ "" ∧ Resolves H inputs inp inp.inReplyTo y

theorem byMsgID_eq_some_iff {id : String} {u : Nat} :
    byMsgID inputs id = some u ↔ ∃ y, FirstWith inputs id y ∧ y.uid = u := by
  have hother : ∀ z : ThreadInput, id ≠ "" →
      ((!(z.messageID != "" && z.messageID == id)) = true ↔ z.messageID ≠ id) := by
    intro z hne
    rw [Bool.not_eq_true', ← Bool.not_eq_true, Bool.and_eq_true, bne_iff_ne, beq_iff_eq]
    exact ⟨fun h hz => h ⟨hz ▸ hne, hz⟩, fun h hz => h hz.2⟩
  rw [byMsgID, Option.map_eq_some_iff]
  refine exists_congr fun y => and_congr_left' ?_
  rw [List.find?_eq_some_iff_append, Bool.and_eq_true, bne_iff_ne, beq_iff_eq]
  constructor
  · rintro ⟨⟨hne, rfl⟩, before, after, hsplit, hbefore⟩
    exact ⟨hne, rfl, before, after, hsplit, fun z hz => (hother z hne).mp (hbefore z hz)⟩
  · rintro ⟨hne, rfl, before, after, hsplit, hbefore⟩
    exact ⟨⟨hne, rfl⟩, before, after, hsplit, fun z hz => (hother z hne).mpr (hbefore z hz)⟩

theorem parentOf_eq_some_iff {inp : ThreadInput} {cand : String} {p : Nat} :
    parentOf H inputs inp cand = some p ↔ ∃ y, Resolves H inputs inp cand y ∧ y.uid = p := by
  rw [parentOf]
  split
  · rename_i hskip
    refine ⟨fun h => (by cases h), ?_⟩
    rintro ⟨y, ⟨⟨hne, -⟩, hother, -⟩, -⟩
    exact absurd hskip (not_or.mpr ⟨hne, hother⟩)
  · rename_i hskip
    rw [Option.filter_eq_some_iff, byMsgID_eq_some_iff, bne_iff_ne]
    constructor
    · rintro ⟨⟨y, hy, rfl⟩, hne⟩
      exact ⟨y, ⟨hy, (not_or.mp hskip).2, hne⟩, rfl⟩
    · rintro ⟨y, ⟨hy, -, hne⟩, rfl⟩
      exact ⟨⟨y, hy, rfl⟩, hne⟩

theorem parentOf_eq_none_iff {inp : ThreadInput} {cand : String} :
    parentOf H inputs inp cand = none ↔ ∀ z, ¬Resolves H inputs inp cand z := by
  rw [Option.eq_none_iff_forall_ne_some]
  constructor
  · exact fun h z hz => h z.uid (parentOf_eq_some_iff.mpr ⟨z, hz, rfl⟩)
  · intro h p hp
    obtain ⟨y, hy, -⟩ := parentOf_eq_some_iff.mp hp
    exact h y hy

/-- The parents that are tried are the messages referred to. -/
theorem mem_parents_iff {inp : ThreadInput} {p : Nat} :
    p ∈ parents H inputs inp ↔ ∃ y, Refers H inputs inp y ∧ y.uid = p := by
  rw [parents, List.filterMap_append, List.mem_append, List.mem_filterMap]
  constructor
  · rintro (⟨ref, href, hp⟩ | hp)
    · obtain ⟨y, hy, rfl⟩ := parentOf_eq_some_iff.mp hp
      exact ⟨y, .inl ⟨ref, List.mem_reverse.mp href, hy⟩, rfl⟩
    · split at hp
      · cases hp
      · rename_i hne
        obtain ⟨cand, hcand, hp⟩ := List.mem_filterMap.mp hp
        obtain rfl := List.mem_singleton.mp hcand
        obtain ⟨y, hy, rfl⟩ := parentOf_eq_some_iff.mp hp
        exact ⟨y, .inr ⟨hne, hy⟩, rfl⟩
  · rintro ⟨y, ⟨ref, href, hy⟩ | ⟨hne, hy⟩, rfl⟩
    · exact .inl ⟨ref, List.mem_reverse.mpr href, parentOf_eq_some_iff.mpr ⟨y, hy, rfl⟩⟩
    · rw [if_neg hne]
      exact .inr (List.mem_filterMap.mpr
        ⟨_, List.mem_cons_self, parentOf_eq_some_iff.mpr ⟨y, hy, rfl⟩⟩)

/-- The first of them is what the last candidate stands for. -/
theorem head_parents_of_lastResolves {inp y : ThreadInput} (h : LastResolves H inputs inp y) :
    (parents H inputs inp).head? = some y.uid := by
  rw [parents, List.filterMap_append, List.head?_append, List.head?_filterMap,
    List.head?_filterMap, Option.or_eq_some_iff]
  obtain ⟨before, ref, after, hsplit, hy, hafter⟩ | ⟨hrefs, hne, hy⟩ := h
  · refine .inl (List.findSome?_eq_some_iff.mpr ⟨after.reverse, ref, before.reverse, ?_,
      parentOf_eq_some_iff.mpr ⟨y, hy, rfl⟩, fun ref' href' => ?_⟩)
    · rw [hsplit, List.reverse_append, List.reverse_cons, List.append_assoc, List.singleton_append]
    · exact parentOf_eq_none_iff.mpr (hafter ref' (List.mem_reverse.mp href'))
  · refine .inr ⟨List.findSome?_eq_none_iff.mpr fun ref href => ?_, ?_⟩
    · exact parentOf_eq_none_iff.mpr (hrefs ref (List.mem_reverse.mp href))
    · rw [if_neg hne, List.findSome?_singleton]
      exact parentOf_eq_some_iff.mpr ⟨y, hy, rfl⟩

theorem Refers.mem {inp y : ThreadInput} (h : Refers H inputs inp y) : y ∈ inputs := by
  obtain ⟨ref, -, ⟨-, -, before, after, rfl, -⟩, -⟩ | ⟨-, ⟨-, -, before, after, rfl, -⟩, -⟩ := h
  · exact List.mem_append_right before List.mem_cons_self
  · exact List.mem_append_right before List.mem_cons_self

/-! ## Links -/

/-- One of the messages refers to the other, or they have the same subject. -/
def Related (H : Headers) (inputs : List ThreadInput) (x y : ThreadInput) : Prop :=
  Refers H inputs x y ∨ Refers H inputs y x ∨
    (subjectKey H x.subject = subjectKey H y.subject ∧ subjectKey H x.subject ≠ "")

/-- The numbers are those of two messages that are related. -/
def Linked (H : Headers) (inputs : List ThreadInput) (a b : Nat) : Prop :=
  ∃ x ∈ inputs, ∃ y ∈ inputs, x.uid = a ∧ y.uid = b ∧ Related H inputs x y

theorem Linked.symm {a b : Nat} (h : Linked H inputs a b) : Linked H inputs b a := by
  obtain ⟨x, hx, y, hy, rfl, rfl, hxy⟩ := h
  refine ⟨y, hy, x, hx, rfl, rfl, ?_⟩
  obtain href | href | ⟨heq, hne⟩ := hxy
  · exact .inr (.inl href)
  · exact .inl href
  · exact .inr (.inr ⟨heq.symm, heq ▸ hne⟩)

/-- A chain of links. -/
def Chained (H : Headers) (inputs : List ThreadInput) : Nat → Nat → Prop :=
  ReflTransGen (Linked H inputs)

theorem equivalence_chained : Equivalence (Chained H inputs) where
  refl _ := .refl
  symm h := by
    induction h with
    | refl => exact .refl
    | tail _ hlink ih => exact .head hlink.symm ih
  trans := .trans

theorem chained_of_mem_parents {inp : ThreadInput} {p : Nat} (hinp : inp ∈ inputs)
    (h : p ∈ parents H inputs inp) : Chained H inputs p inp.uid := by
  obtain ⟨y, hy, rfl⟩ := mem_parents_iff.mp h
  exact .single ⟨y, hy.mem, inp, hinp, rfl, rfl, .inr (.inl hy)⟩

/-! ## Both passes stay within an equivalence -/

section Within

variable {s : Nat → Nat → Prop} {P : Partition}

theorem Partition.link_le (hs : Equivalence s) (hP : ∀ a b, P.rel a b → s a b) {uid : Nat}
    {ps : List Nat} (hps : ∀ p ∈ ps, s p uid) {a b : Nat} (h : (P.link uid ps).rel a b) : s a b := by
  rw [Partition.link] at h
  split at h
  · rename_i p hp
    exact joinRel_le hs hP (hps p (List.mem_of_find?_eq_some hp)) h
  · exact hP a b h

theorem Partition.attach_le (hs : Equivalence s) (hP : ∀ a b, P.rel a b → s a b) {anchor uid : Nat}
    (hanchor : s anchor uid) {a b : Nat} (h : (P.attach anchor uid).rel a b) : s a b := by
  rw [Partition.attach] at h
  split at h
  · exact hP a b h
  · exact joinRel_le hs hP hanchor h

end Within

/-- What pass 2 keeps: the anchor of a subject is a message that has it. -/
def Anchored (H : Headers) (inputs : List ThreadInput) (anchors : String → Option Nat) : Prop :=
  ∀ key a, anchors key = some a → ∃ x ∈ inputs, x.uid = a ∧ subjectKey H x.subject = key

theorem chained_subject {st : (String → Option Nat) × Partition} {inp : ThreadInput}
    (hinp : inp ∈ inputs) (hst : Anchored H inputs st.1)
    (hP : ∀ a b, st.2.rel a b → Chained H inputs a b) :
    Anchored H inputs (Partition.subject H st inp).1 ∧
      ∀ a b, (Partition.subject H st inp).2.rel a b → Chained H inputs a b := by
  rw [Partition.subject]
  split
  · exact ⟨hst, hP⟩
  · dsimp only
    split
    · exact ⟨hst, hP⟩
    · rename_i hkey
      split
      · rename_i anchor hanchor
        obtain ⟨x, hx, rfl, hxkey⟩ := hst _ _ hanchor
        have hlink : Linked H inputs x.uid inp.uid :=
          ⟨x, hx, inp, hinp, rfl, rfl, .inr (.inr ⟨hxkey, hxkey ▸ hkey⟩)⟩
        exact ⟨hst, fun a b => Partition.attach_le equivalence_chained hP (.single hlink)⟩
      · refine ⟨fun key a h => ?_, hP⟩
        dsimp only at h
        rw [Function.update_apply] at h
        split at h
        · rename_i heq
          exact ⟨inp, hinp, Option.some.inj h, heq.symm⟩
        · exact hst key a h

/-- **A class holds together**: two numbers that are joined are linked by a chain. -/
theorem chained_of_joined {a b : Nat} (h : Joined H inputs a b) : Chained H inputs a b := by
  have hpass : ∀ l ⊆ inputs, ∀ P : Partition, (∀ a b, P.rel a b → Chained H inputs a b) →
      ∀ a b, (l.foldl (fun P inp => P.link inp.uid (parents H inputs inp)) P).rel a b →
        Chained H inputs a b := by
    intro l hl P hP
    induction l generalizing P with
    | nil => exact hP
    | cons inp l ih =>
      refine ih (fun x hx => hl (List.mem_cons_of_mem inp hx)) _ fun a b => ?_
      exact Partition.link_le equivalence_chained hP fun p hp =>
        chained_of_mem_parents (hl List.mem_cons_self) hp
  have hpass2 : ∀ l ⊆ inputs, ∀ st : (String → Option Nat) × Partition,
      Anchored H inputs st.1 → (∀ a b, st.2.rel a b → Chained H inputs a b) →
      ∀ a b, (l.foldl (Partition.subject H) st).2.rel a b → Chained H inputs a b := by
    intro l hl st hst hP
    induction l generalizing st with
    | nil => exact hP
    | cons inp l ih =>
      obtain ⟨hst', hP'⟩ := chained_subject (hl List.mem_cons_self) hst hP
      exact ih (fun x hx => hl (List.mem_cons_of_mem inp hx)) _ hst' hP'
  have hfirst := hpass inputs (List.Subset.refl _) ⟨fun x y => x = y, fun _ => false⟩
    fun a b hab => hab ▸ .refl
  exact hpass2 inputs (List.Subset.refl _) _ (fun key a h => by cases h) hfirst a b h

/-! ## The root -/

theorem groupThreads_lookup {x : Nat} (hx : x ∈ inputs.map ThreadInput.uid) :
    (groupThreads H inputs).lookup x = some ((grouping H inputs).forest.root x) :=
  lookup_roots hx

/-- The root of a message is one of the messages. -/
theorem root_mem {x : Nat} (hx : x ∈ inputs.map ThreadInput.uid) :
    (grouping H inputs).forest.root x ∈ inputs.map ThreadInput.uid := by
  have hjoined : Joined H inputs ((grouping H inputs).forest.root x) x := by
    rw [Joined, ← grouping_toPartition]
    exact Forest.root_root _ x
  obtain heq | ⟨b, ⟨y, hy, -, -, hroot, -⟩, -⟩ := ReflTransGen.cases_head (chained_of_joined hjoined)
  · rwa [heq]
  · exact List.mem_map.mpr ⟨y, hy, hroot⟩

/-- The root is the least of its class. -/
theorem isLeast_root {x : Nat} (hx : x ∈ inputs.map ThreadInput.uid) :
    IsLeast {u | u ∈ inputs.map ThreadInput.uid ∧
      (groupThreads H inputs).lookup u = (groupThreads H inputs).lookup x}
      ((grouping H inputs).forest.root x) := by
  constructor
  · refine ⟨root_mem hx, ?_⟩
    rw [groupThreads_lookup (root_mem hx), groupThreads_lookup hx, Forest.root_root]
  · rintro u ⟨hu, hsame⟩
    rw [groupThreads_lookup hu, groupThreads_lookup hx, Option.some_inj] at hsame
    rw [← hsame]
    exact Forest.root_le _ u

/-- **The threads of `GroupThreads`.** Every walk to a root ends, every message gets the least
of its class, a message is in the class of what its last candidate stands for, and the
messages of a class are linked by chains of references and equal subjects. -/
theorem groupThreads_classes (H : Headers) (inputs : List ThreadInput) :
    (∀ (u : Forest) (x : Nat),
      Forest.walk (x + 1) u.parent x = some ((u.find x).1, (u.find x).2.parent)) ∧
    (∀ x ∈ inputs.map ThreadInput.uid, ∃ root, (groupThreads H inputs).lookup x = some root ∧
      IsLeast {u | u ∈ inputs.map ThreadInput.uid ∧
        (groupThreads H inputs).lookup u = (groupThreads H inputs).lookup x} root) ∧
    (∀ x ∈ inputs, ∀ y, LastResolves H inputs x y →
      (groupThreads H inputs).lookup y.uid = (groupThreads H inputs).lookup x.uid) ∧
    ∀ x ∈ inputs.map ThreadInput.uid, ∀ y ∈ inputs.map ThreadInput.uid,
      (groupThreads H inputs).lookup x = (groupThreads H inputs).lookup y →
        ReflTransGen (Linked H inputs) x y := by
  refine ⟨fun u x => u.walk_eq (Nat.lt_succ_self x), fun x hx => ?_, fun x hx y hy => ?_,
    fun x hx y hy hsame => ?_⟩
  · exact ⟨_, groupThreads_lookup hx, isLeast_root hx⟩
  · have hhead := head_parents_of_lastResolves hy
    obtain ⟨z, hz, huid⟩ := mem_parents_iff.mp (List.mem_of_head? hhead)
    have hmem : y.uid ∈ inputs.map ThreadInput.uid := List.mem_map.mpr ⟨z, hz.mem, huid⟩
    exact (same_groupThreads hmem (List.mem_map.mpr ⟨x, hx, rfl⟩)).mpr (joined_of_parent hx hhead)
  · exact chained_of_joined ((same_groupThreads hx hy).mp hsame)

/-! ## The order of the messages -/

/-- The first candidate of a message of the list that is there. -/
def FirstRefIn (H : Headers) (inputs l : List ThreadInput) (a b : Nat) : Prop :=
  ∃ inp ∈ l, inp.uid = a ∧ (parents H inputs inp).head? = some b

/-- The message that the first candidate of another stands for. -/
def FirstRef (H : Headers) (inputs : List ThreadInput) : Nat → Nat → Prop :=
  FirstRefIn H inputs inputs

/-- A message that is grouped by its subject. -/
def Free (H : Headers) (inputs : List ThreadInput) (inp : ThreadInput) : Prop :=
  inp.messageID = "" ∨ (parents H inputs inp).head? = none

/-- The numbers of two messages that are grouped by one subject. -/
def SameSubject (H : Headers) (inputs : List ThreadInput) (a b : Nat) : Prop :=
  ∃ x ∈ inputs, ∃ y ∈ inputs, x.uid = a ∧ y.uid = b ∧ Free H inputs x ∧ Free H inputs y ∧
    subjectKey H x.subject = subjectKey H y.subject ∧ subjectKey H x.subject ≠ ""

/-- The classes, with nothing in them that depends on an order. -/
def Threads (H : Headers) (inputs : List ThreadInput) : Nat → Nat → Prop :=
  EqvGen fun a b => FirstRef H inputs a b ∨ SameSubject H inputs a b

/-- The classes of the references of some messages, in which two numbers are joined by
where their references lead. -/
def RefClass (H : Headers) (inputs l : List ThreadInput) : Nat → Nat → Prop :=
  Join (ReflTransGen (FirstRefIn H inputs l))

theorem FirstRefIn.mono {l l' : List ThreadInput} (hl : l ⊆ l') {a b : Nat}
    (h : FirstRefIn H inputs l a b) : FirstRefIn H inputs l' a b := by
  obtain ⟨inp, hinp, h⟩ := h
  exact ⟨inp, hl hinp, h⟩

theorem eq_of_uid {l : List ThreadInput} (hnodup : (l.map ThreadInput.uid).Nodup)
    {x y : ThreadInput} (hx : x ∈ l) (hy : y ∈ l) (h : x.uid = y.uid) : x = y :=
  List.inj_on_of_nodup_map hnodup hx hy h

/-- A message has one first candidate, so that references join as they lead. -/
theorem equivalence_refClass {l : List ThreadInput} (hnodup : (l.map ThreadInput.uid).Nodup) :
    Equivalence (RefClass H inputs l) := by
  refine equivalence_join_reflTransGen fun a b c hb hc => ⟨b, .refl, ?_⟩
  obtain ⟨x, hx, rfl, hb⟩ := hb
  obtain ⟨y, hy, heq, hc⟩ := hc
  obtain rfl := eq_of_uid hnodup hx hy heq.symm
  rw [hb] at hc
  rw [Option.some.inj hc]

/-- What pass 1 has done after some of the messages. -/
structure RefPass (H : Headers) (inputs l : List ThreadInput) (P : Partition) : Prop where
  /-- nothing else is joined -/
  within : ∀ a b, P.rel a b → RefClass H inputs l a b
  /-- the first candidates are joined -/
  joined : ∀ a b, FirstRefIn H inputs l a b → P.rel b a
  /-- a message with a candidate has a parent -/
  anchored : ∀ inp ∈ l, P.anchored inp.uid = (parents H inputs inp).head?.isSome
  refl : ∀ a, P.rel a a

/-- **One message of pass 1.** Where no reference leads back, the first candidate is always
in another tree. -/
theorem RefPass.step {l : List ThreadInput} {inp : ThreadInput} {P : Partition}
    (hP : RefPass H inputs l P) (hnodup : ((l ++ [inp]).map ThreadInput.uid).Nodup)
    (hl : l ++ [inp] ⊆ inputs) (hacyclic : ∀ a, ¬TransGen (FirstRef H inputs) a a) :
    RefPass H inputs (l ++ [inp]) (P.link inp.uid (parents H inputs inp)) := by
  have hmono : ∀ a b, FirstRefIn H inputs l a b → FirstRefIn H inputs (l ++ [inp]) a b :=
    fun a b => FirstRefIn.mono (List.subset_append_left l [inp])
  have hwithin : ∀ a b, P.rel a b → RefClass H inputs (l ++ [inp]) a b := fun a b hab => by
    obtain ⟨c, hac, hbc⟩ := hP.within a b hab
    exact ⟨c, ReflTransGen.mono hmono _ _ hac, ReflTransGen.mono hmono _ _ hbc⟩
  have hfresh : ∀ x ∈ l, x.uid ≠ inp.uid := by
    rw [List.map_append, List.nodup_append] at hnodup
    exact fun x hx => hnodup.2.2 _ (List.mem_map.mpr ⟨x, hx, rfl⟩) _ List.mem_cons_self
  have hsplit : ∀ a b, FirstRefIn H inputs (l ++ [inp]) a b →
      FirstRefIn H inputs l a b ∨ a = inp.uid ∧ (parents H inputs inp).head? = some b := by
    rintro a b ⟨x, hx, rfl, hb⟩
    obtain hx | hx := List.mem_append.mp hx
    · exact .inl ⟨x, hx, rfl, hb⟩
    · obtain rfl := List.mem_singleton.mp hx
      exact .inr ⟨rfl, hb⟩
  have hkept : ∀ (P' : Partition), P'.anchored = Function.update P.anchored inp.uid
      (parents H inputs inp).head?.isSome → ∀ x ∈ l ++ [inp],
        P'.anchored x.uid = (parents H inputs x).head?.isSome := by
    intro P' hP' x hx
    rw [hP']
    obtain hx | hx := List.mem_append.mp hx
    · rw [Function.update_of_ne (hfresh x hx), hP.anchored x hx]
    · obtain rfl := List.mem_singleton.mp hx
      rw [Function.update_self]
  cases hps : parents H inputs inp with
  | nil =>
    have hlink : P.link inp.uid [] = ⟨P.rel, Function.update P.anchored inp.uid false⟩ := rfl
    rw [hlink]
    refine ⟨hwithin, fun a b hab => ?_, hkept _ (by rw [hps]; rfl), hP.refl⟩
    obtain hab | ⟨-, hb⟩ := hsplit a b hab
    · exact hP.joined a b hab
    · rw [hps] at hb
      cases hb
  | cons p ps =>
    have hinp : FirstRefIn H inputs (l ++ [inp]) inp.uid p :=
      ⟨inp, List.mem_append_right l List.mem_cons_self, rfl, by rw [hps]; rfl⟩
    have hapart : ¬P.rel p inp.uid := by
      intro hrel
      obtain ⟨c, hpc, hinpc⟩ := hP.within _ _ hrel
      -- nothing has been followed from the message itself
      obtain rfl | ⟨b, ⟨x, hx, heq, -⟩, -⟩ := hinpc.cases_head
      · refine hacyclic inp.uid (.head' (FirstRefIn.mono hl hinp) (ReflTransGen.mono ?_ _ _ hpc))
        exact fun a b hab => FirstRefIn.mono hl (hmono a b hab)
      · exact hfresh x hx heq
    have hlink : P.link inp.uid (p :: ps) =
        ⟨joinRel P.rel p inp.uid, Function.update P.anchored inp.uid true⟩ := by
      rw [Partition.link, firstApart_cons_of_not_rel hapart]
    rw [hlink]
    refine ⟨fun a b => ?_, fun a b hab => ?_, hkept _ (by rw [hps]; rfl), fun a => .inl (hP.refl a)⟩
    · exact joinRel_le (equivalence_refClass hnodup) hwithin ⟨p, .refl, .single hinp⟩
    · obtain hab | ⟨rfl, hb⟩ := hsplit a b hab
      · exact .inl (hP.joined a b hab)
      · rw [hps] at hb
        obtain rfl := Option.some.inj hb
        exact .inr (.inl ⟨hP.refl p, hP.refl inp.uid⟩)

/-- Pass 1 over all messages. -/
theorem refPass (hnodup : (inputs.map ThreadInput.uid).Nodup)
    (hacyclic : ∀ a, ¬TransGen (FirstRef H inputs) a a) :
    RefPass H inputs inputs (inputs.foldl (fun P inp => P.link inp.uid (parents H inputs inp))
      ⟨fun x y => x = y, fun _ => false⟩) := by
  have hrun : ∀ l : List ThreadInput, (l.map ThreadInput.uid).Nodup → l ⊆ inputs →
      RefPass H inputs l (l.foldl (fun P inp => P.link inp.uid (parents H inputs inp))
        ⟨fun x y => x = y, fun _ => false⟩) := by
    intro l
    induction l using List.reverseRecOn with
    | nil =>
      refine fun _ _ => ⟨fun a b hab => ⟨b, hab ▸ .refl, .refl⟩, ?_, by simp, fun _ => rfl⟩
      rintro a b ⟨inp, hinp, -⟩
      cases hinp
    | append_singleton l inp ih =>
      intro hl hsub
      rw [List.foldl_append, List.foldl_cons, List.foldl_nil]
      have hsub' : l ⊆ inputs := fun x hx => hsub (List.mem_append_left [inp] hx)
      have hl' : (l.map ThreadInput.uid).Nodup := by
        rw [List.map_append] at hl
        exact hl.of_append_left
      exact (ih hl' hsub').step hl hsub hacyclic
  exact hrun inputs hnodup (List.Subset.refl _)

theorem equivalence_threads : Equivalence (Threads H inputs) := EqvGen.is_equivalence _

theorem threads_of_refClass {a b : Nat} (h : RefClass H inputs inputs a b) :
    Threads H inputs a b := by
  have hleads : ∀ a b, ReflTransGen (FirstRefIn H inputs inputs) a b → Threads H inputs a b := by
    intro a b hab
    induction hab with
    | refl => exact .refl a
    | tail _ hlast ih => exact .trans _ _ _ ih (.rel _ _ (.inl hlast))
  obtain ⟨c, hac, hbc⟩ := h
  exact .trans _ _ _ (hleads a c hac) (.symm _ _ (hleads b c hbc))

/-- What pass 2 has done after some of the messages. -/
structure SubjectPass (H : Headers) (inputs : List ThreadInput) (P : Partition)
    (l : List ThreadInput) (st : (String → Option Nat) × Partition) : Prop where
  /-- nothing else is joined -/
  within : ∀ a b, st.2.rel a b → Threads H inputs a b
  /-- what pass 1 has joined is still joined -/
  kept : ∀ a b, P.rel a b → st.2.rel a b
  /-- an anchor is one of the messages that are grouped by their subject -/
  anchors : ∀ key a, st.1 key = some a →
    ∃ x ∈ l, x.uid = a ∧ Free H inputs x ∧ subjectKey H x.subject = key
  /-- such a message is with the anchor of its subject -/
  placed : ∀ x ∈ l, Free H inputs x → subjectKey H x.subject ≠ "" →
    ∃ a, st.1 (subjectKey H x.subject) = some a ∧ st.2.rel a x.uid
  /-- the messages to come have the parents that pass 1 gave them -/
  later : ∀ u, u ∉ l.map ThreadInput.uid → st.2.anchored u = P.anchored u

theorem Partition.attach_rel {P : Partition} {anchor uid : Nat} (hrefl : ∀ a, P.rel a a) :
    (P.attach anchor uid).rel anchor uid := by
  rw [Partition.attach]
  split
  · assumption
  · exact .inr (.inl ⟨hrefl anchor, hrefl uid⟩)

theorem Partition.attach_mono {P : Partition} {anchor uid a b : Nat} (h : P.rel a b) :
    (P.attach anchor uid).rel a b := by
  rw [Partition.attach]
  split
  · exact h
  · exact .inl h

theorem Partition.attach_anchored {P : Partition} {anchor uid u : Nat} (h : u ≠ uid) :
    (P.attach anchor uid).anchored u = P.anchored u := by
  rw [Partition.attach]
  split
  · rfl
  · exact Function.update_of_ne h _ _

/-- **One message of pass 2.** -/
theorem SubjectPass.step {P : Partition} {l : List ThreadInput} {inp : ThreadInput}
    {st : (String → Option Nat) × Partition} (hst : SubjectPass H inputs P l st)
    (hP : RefPass H inputs inputs P) (hfresh : inp.uid ∉ l.map ThreadInput.uid)
    (hl : l ++ [inp] ⊆ inputs) :
    SubjectPass H inputs P (l ++ [inp]) (Partition.subject H st inp) := by
  have hinp : inp ∈ inputs := hl (List.mem_append_right l List.mem_cons_self)
  have hskip : (inp.messageID ≠ "" ∧ st.2.anchored inp.uid = true) ↔ ¬Free H inputs inp := by
    rw [hst.later _ hfresh, hP.anchored inp hinp, Option.isSome_iff_ne_none, Free, not_or]
  have hlater : ∀ u, u ∉ (l ++ [inp]).map ThreadInput.uid →
      u ∉ l.map ThreadInput.uid ∧ u ≠ inp.uid := by
    intro u hu
    rw [List.map_append, List.mem_append, not_or] at hu
    exact ⟨hu.1, by simpa using hu.2⟩
  have hbefore : ∀ key a, st.1 key = some a →
      ∃ x ∈ l ++ [inp], x.uid = a ∧ Free H inputs x ∧ subjectKey H x.subject = key := by
    intro key a h
    obtain ⟨x, hx, h⟩ := hst.anchors key a h
    exact ⟨x, List.mem_append_left [inp] hx, h⟩
  have hrefl : ∀ a, st.2.rel a a := fun a => hst.kept a a (hP.refl a)
  rw [Partition.subject]
  by_cases hfree : Free H inputs inp
  · rw [if_neg (mt hskip.mp (not_not_intro hfree))]
    dsimp only
    by_cases hkey : subjectKey H inp.subject = ""
    · rw [if_pos hkey]
      refine ⟨hst.within, hst.kept, hbefore, fun x hx hx' hne => ?_, fun u hu =>
        hst.later u (hlater u hu).1⟩
      obtain hx | hx := List.mem_append.mp hx
      · exact hst.placed x hx hx' hne
      · exact absurd hkey (List.mem_singleton.mp hx ▸ hne)
    · rw [if_neg hkey]
      cases hanchor : st.1 (subjectKey H inp.subject) with
      | some anchor =>
        obtain ⟨y, hy, rfl, hyfree, hykey⟩ := hst.anchors _ _ hanchor
        have hsame : SameSubject H inputs y.uid inp.uid :=
          ⟨y, hl (List.mem_append_left [inp] hy), inp, hinp, rfl, rfl, hyfree, hfree, hykey,
            hykey ▸ hkey⟩
        refine ⟨fun a b => Partition.attach_le equivalence_threads hst.within (.rel _ _ (.inr hsame)),
          fun a b hab => Partition.attach_mono (hst.kept a b hab), hbefore, fun x hx hx' hne => ?_,
          fun u hu => ?_⟩
        · obtain hx | hx := List.mem_append.mp hx
          · obtain ⟨a, ha, hrel⟩ := hst.placed x hx hx' hne
            exact ⟨a, ha, Partition.attach_mono hrel⟩
          · obtain rfl := List.mem_singleton.mp hx
            exact ⟨_, hanchor, Partition.attach_rel hrefl⟩
        · obtain ⟨hul, hne⟩ := hlater u hu
          rw [Partition.attach_anchored hne, hst.later u hul]
      | none =>
        refine ⟨hst.within, hst.kept, fun key a h => ?_, fun x hx hx' hne => ?_, fun u hu =>
          hst.later u (hlater u hu).1⟩
        · dsimp only at h
          rw [Function.update_apply] at h
          split at h
          · rename_i heq
            exact ⟨inp, List.mem_append_right l List.mem_cons_self, Option.some.inj h, hfree, heq.symm⟩
          · exact hbefore key a h
        · obtain hx | hx := List.mem_append.mp hx
          · obtain ⟨a, ha, hrel⟩ := hst.placed x hx hx' hne
            have hother : subjectKey H x.subject ≠ subjectKey H inp.subject := by
              intro heq
              rw [heq, hanchor] at ha
              cases ha
            refine ⟨a, ?_, hrel⟩
            dsimp only
            rw [Function.update_of_ne hother, ha]
          · obtain rfl := List.mem_singleton.mp hx
            refine ⟨x.uid, ?_, hrefl _⟩
            dsimp only
            rw [Function.update_self]
  · rw [if_pos (hskip.mpr hfree)]
    refine ⟨hst.within, hst.kept, hbefore, fun x hx hx' hne => ?_, fun u hu =>
      hst.later u (hlater u hu).1⟩
    obtain hx | hx := List.mem_append.mp hx
    · exact hst.placed x hx hx' hne
    · exact absurd hx' (List.mem_singleton.mp hx ▸ hfree)

/-- **The classes without an order.** Where no reference leads back to its message, what the
two passes join is given by the first candidates and the subjects alone. -/
theorem joined_iff_threads (hnodup : (inputs.map ThreadInput.uid).Nodup)
    (hacyclic : ∀ a, ¬TransGen (FirstRef H inputs) a a) {a b : Nat} :
    Joined H inputs a b ↔ Threads H inputs a b := by
  have hP := refPass hnodup hacyclic
  have hrun : ∀ l : List ThreadInput, (l.map ThreadInput.uid).Nodup → l ⊆ inputs →
      SubjectPass H inputs (inputs.foldl (fun P inp => P.link inp.uid (parents H inputs inp))
        ⟨fun x y => x = y, fun _ => false⟩) l (l.foldl (Partition.subject H) (fun _ => none,
          inputs.foldl (fun P inp => P.link inp.uid (parents H inputs inp))
            ⟨fun x y => x = y, fun _ => false⟩)) := by
    intro l
    induction l using List.reverseRecOn with
    | nil =>
      refine fun _ _ => ⟨fun a b hab => threads_of_refClass (hP.within a b hab), fun _ _ => id,
        ?_, by simp, fun _ _ => rfl⟩
      intro key a h
      cases h
    | append_singleton l inp ih =>
      intro hl hsub
      rw [List.foldl_append, List.foldl_cons, List.foldl_nil]
      rw [List.map_append, List.nodup_append] at hl
      refine (ih hl.1 fun x hx => hsub (List.mem_append_left [inp] hx)).step hP ?_ hsub
      exact fun hmem => hl.2.2 _ hmem _ List.mem_cons_self rfl
  have hpass := hrun inputs hnodup (List.Subset.refl _)
  refine ⟨hpass.within a b, fun h => ?_⟩
  have hequiv : Equivalence (Joined H inputs) := by
    have hsame : Joined H inputs = (grouping H inputs).forest.Same := by
      show (partition H inputs).rel = _
      rw [← grouping_toPartition]
      rfl
    rw [hsame]
    exact ⟨fun _ => rfl, Eq.symm, Eq.trans⟩
  induction h with
  | rel a b hab =>
    obtain href | ⟨x, hx, y, hy, rfl, rfl, hxfree, hyfree, hkey, hne⟩ := hab
    · exact hequiv.symm (hpass.kept _ _ (hP.joined a b href))
    · obtain ⟨c, hc, hcx⟩ := hpass.placed x hx hxfree hne
      obtain ⟨c', hc', hcy⟩ := hpass.placed y hy hyfree (hkey ▸ hne)
      rw [← hkey, hc] at hc'
      obtain rfl := Option.some.inj hc'
      exact hequiv.trans (hequiv.symm hcx) hcy
  | refl a => exact hequiv.refl a
  | symm a b _ ih => exact hequiv.symm ih
  | trans a b c _ _ ihab ihbc => exact hequiv.trans ihab ihbc

/-! ## Permutations -/

section Perm

variable {inputs' : List ThreadInput}

theorem byMsgID_eq_some {id : String} {u : Nat} (h : byMsgID inputs id = some u) :
    ∃ x ∈ inputs, x.messageID ≠ "" ∧ x.messageID = id ∧ x.uid = u := by
  obtain ⟨x, ⟨hne, rfl, before, after, rfl, -⟩, rfl⟩ := byMsgID_eq_some_iff.mp h
  exact ⟨x, List.mem_append_right before List.mem_cons_self, hne, rfl, rfl⟩

theorem byMsgID_isSome {x : ThreadInput} (hx : x ∈ inputs) (hid : x.messageID ≠ "") :
    ∃ u, byMsgID inputs x.messageID = some u := by
  rw [← Option.isSome_iff_exists, byMsgID, Option.isSome_map, List.find?_isSome]
  exact ⟨x, hx, by simpa using hid⟩

/-- Where no two messages have one id, every order finds the same message by it. -/
theorem byMsgID_perm (hperm : inputs.Perm inputs')
    (hids : ∀ x ∈ inputs, ∀ y ∈ inputs, x.messageID = y.messageID → x.messageID ≠ "" → x.uid = y.uid)
    (id : String) : byMsgID inputs' id = byMsgID inputs id := by
  cases h : byMsgID inputs id with
  | some u =>
    obtain ⟨x, hx, hne, rfl, rfl⟩ := byMsgID_eq_some h
    obtain ⟨v, hv⟩ := byMsgID_isSome (hperm.subset hx) hne
    obtain ⟨y, hy, -, hyid, rfl⟩ := byMsgID_eq_some hv
    rw [hv, hids x hx y (hperm.symm.subset hy) hyid.symm hne]
  | none =>
    cases h' : byMsgID inputs' id with
    | none => rfl
    | some u =>
      obtain ⟨x, hx, hne, rfl, -⟩ := byMsgID_eq_some h'
      obtain ⟨v, hv⟩ := byMsgID_isSome (hperm.symm.subset hx) hne
      rw [h] at hv
      cases hv

theorem parents_congr (hfirst : ∀ id, byMsgID inputs' id = byMsgID inputs id) (inp : ThreadInput) :
    parents H inputs' inp = parents H inputs inp := by
  have hparent : ∀ cand, parentOf H inputs' inp cand = parentOf H inputs inp cand := fun cand => by
    rw [parentOf, parentOf, hfirst]
  rw [parents, parents, funext hparent]

theorem firstRef_perm (hperm : inputs.Perm inputs')
    (hfirst : ∀ id, byMsgID inputs' id = byMsgID inputs id) :
    FirstRef H inputs' = FirstRef H inputs := by
  funext a b
  simp only [FirstRef, FirstRefIn, parents_congr hfirst, hperm.mem_iff]

theorem threads_perm (hperm : inputs.Perm inputs')
    (hfirst : ∀ id, byMsgID inputs' id = byMsgID inputs id) :
    Threads H inputs' = Threads H inputs := by
  have hsubject : SameSubject H inputs' = SameSubject H inputs := by
    funext a b
    simp only [SameSubject, Free, parents_congr hfirst, hperm.mem_iff]
  rw [Threads, Threads, firstRef_perm hperm hfirst, hsubject]

/-- **The order of the messages.** Where the first candidates lead from no message back to
it, and each id is found with the same message, every order of the messages gives each of
them the same root, and indexes that differ in their order have the same threads. -/
theorem groupThreads_perm (H : Headers) {inputs inputs' : List ThreadInput}
    (hnodup : (inputs.map ThreadInput.uid).Nodup) (hperm : inputs.Perm inputs')
    (hfirst : ∀ id, byMsgID inputs' id = byMsgID inputs id)
    (hacyclic : ∀ a, ¬TransGen (FirstRef H inputs) a a) :
    (∀ x ∈ inputs.map ThreadInput.uid,
      (groupThreads H inputs').lookup x = (groupThreads H inputs).lookup x) ∧
    ∀ idx idx' : ThreadIndex, idx.nodes.rows.map threadInput = inputs →
      idx'.nodes.rows.map threadInput = inputs' → ∀ x ∈ idx.nodes.uids, ∀ y ∈ idx.nodes.uids,
        (SameThread (buildThreadGroups H idx') x y ↔ SameThread (buildThreadGroups H idx) x y) := by
  have hmem : ∀ {u}, u ∈ inputs'.map ThreadInput.uid ↔ u ∈ inputs.map ThreadInput.uid :=
    (hperm.map ThreadInput.uid).mem_iff.symm
  have hnodup' : (inputs'.map ThreadInput.uid).Nodup :=
    (hperm.map ThreadInput.uid).nodup_iff.mp hnodup
  have hjoined : ∀ {a b}, Joined H inputs' a b ↔ Joined H inputs a b := by
    intro a b
    rw [joined_iff_threads hnodup hacyclic, joined_iff_threads hnodup', threads_perm hperm hfirst]
    rwa [firstRef_perm hperm hfirst]
  constructor
  · intro x hx
    have hclass : {u | u ∈ inputs'.map ThreadInput.uid ∧
        (groupThreads H inputs').lookup u = (groupThreads H inputs').lookup x} =
        {u | u ∈ inputs.map ThreadInput.uid ∧
          (groupThreads H inputs).lookup u = (groupThreads H inputs).lookup x} := by
      ext u
      simp only [Set.mem_ofPred_eq, hmem]
      refine and_congr_right fun hu => ?_
      rw [same_groupThreads (hmem.mpr hu) (hmem.mpr hx), same_groupThreads hu hx, hjoined]
    have hleast := isLeast_root (H := H) (hmem.mpr hx)
    rw [hclass] at hleast
    rw [groupThreads_lookup (hmem.mpr hx), groupThreads_lookup hx,
      hleast.unique (isLeast_root (H := H) hx)]
  · rintro idx idx' rfl rfl x hx y hy
    have huids : ∀ {idx : ThreadIndex} {u}, u ∈ (idx.nodes.rows.map threadInput).map ThreadInput.uid ↔
        u ∈ idx.nodes.uids := by
      intro idx u
      rw [List.map_map]
      exact Iff.rfl
    rw [sameThread_iff hx hy, sameThread_iff (huids.mp (hmem.mpr (huids.mpr hx)))
      (huids.mp (hmem.mpr (huids.mpr hy))), hjoined]

end Perm

/-- A message, two replies to it, and one that refers to nothing. -/
def conversation : List ThreadInput :=
  [⟨1, "a", [], "", "lunch"⟩, ⟨2, "b", ["a"], "", "Re: lunch"⟩, ⟨3, "c", ["a", "b"], "", "dinner"⟩,
    ⟨4, "d", [], "", "lunch"⟩]

theorem groupThreads_perm_conversation :
    (conversation.map ThreadInput.uid).Nodup ∧
    (groupThreads asciiHeaders conversation.reverse).lookup 3 =
      (groupThreads asciiHeaders conversation).lookup 3 := by
  refine ⟨by decide, (groupThreads_perm asciiHeaders (by decide) (List.reverse_perm _).symm
    (byMsgID_perm (List.reverse_perm _).symm (by decide)) ?_).1 3 (by decide)⟩
  -- every reference is to a smaller number
  have hsmaller : ∀ a b, FirstRef asciiHeaders conversation a b → b < a := by
    rintro a b ⟨inp, hinp, rfl, hb⟩
    have hall : ∀ inp ∈ conversation, ∀ b ∈ (parents asciiHeaders conversation inp).head?,
        b < inp.uid := by decide +kernel
    exact hall inp hinp b hb
  intro a hcycle
  have hlt : a < a := TransGen.trans_induction_on (motive := fun {a b} _ => b < a) hcycle
    (fun hab => hsmaller _ _ hab) fun _ _ hab hbc => hbc.trans hab
  exact absurd hlt (Nat.lt_irrefl a)

/-- **The order shows** where two messages refer to each other: the one that comes first
is joined to the other, and only the second goes on to another candidate. -/
theorem order_shows : ¬∀ inputs inputs' : List ThreadInput,
    (inputs.map ThreadInput.uid).Nodup → inputs.Perm inputs' →
    ∀ x ∈ inputs.map ThreadInput.uid, ∀ y ∈ inputs.map ThreadInput.uid,
      ((groupThreads asciiHeaders inputs).lookup x = (groupThreads asciiHeaders inputs).lookup y ↔
        (groupThreads asciiHeaders inputs').lookup x =
          (groupThreads asciiHeaders inputs').lookup y) := by
  intro h
  have hsame := h [⟨1, "a", [], "b", ""⟩, ⟨2, "b", ["c", "a"], "", ""⟩, ⟨3, "c", [], "", ""⟩]
    [⟨2, "b", ["c", "a"], "", ""⟩, ⟨1, "a", [], "b", ""⟩, ⟨3, "c", [], "", ""⟩] (by decide)
    (List.Perm.swap _ _ _) 2 (by decide) 3 (by decide)
  exact absurd hsame (by decide +kernel)

end E2Mail.Imap
