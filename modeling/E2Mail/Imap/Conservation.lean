import E2Mail.Imap.Client

/-!
# Conservation of messages

What moving and deleting messages owes to the user: the messages named leave the
folder, each with one copy where it was moved to, and nothing else changes; and
if the operation fails, no message is lost or there twice.

* `Moved`, `Removed`, `NothingLost` — what is owed;
* `gone` — the messages that STORE and EXPUNGE take out of a folder together;
* `moveMessages_…`, `deleteMessages_…` — what the operations do instead;
* `Operation.conserves_iff` — when the two agree.
-/

namespace E2Mail.Imap

open Lib Server

/-! ## What is owed -/

/-- The copies that a COPY of the messages named would leave in the destination. -/
def copiesOf (uids : List Nat) (folder dest : String) (s : Server) : List (Nat × Message) :=
  numberFrom (s.uidNext dest) ((named uids (s.messages folder)).map (·.2))

/-- **Moved.** The messages named have left the folder, each has one copy at the
end of the destination under a UID that was not given before, and all others are
as they were. -/
def Moved (folder : String) (uids : List Nat) (dest : String) (s s' : Server) : Prop :=
  ∃ copies : List (Nat × Message),
    (∀ p ∈ copies, s.uidNext dest ≤ p.1) ∧
    copies.map (·.2) = (named uids (s.messages folder)).map (·.2) ∧
    ∀ other, s'.messages other =
      (if other = folder then unnamed uids (s.messages other) else s.messages other) ++
        if other = dest then copies else []

/-- **Removed.** The messages named are gone, and all others are as they were. -/
def Removed (folder : String) (uids : List Nat) (s s' : Server) : Prop :=
  ∀ other, s'.messages other =
    if other = folder then unnamed uids (s.messages other) else s.messages other

/-- **Nothing lost.** Every folder has the messages it had, whatever their flags. -/
def NothingLost (s s' : Server) : Prop :=
  ∀ other, (s'.messages other).map (fun p => (p.1, p.2.content)) =
    (s.messages other).map fun p => (p.1, p.2.content)

/-- The trash: the folder that `FindTrashFolder` picks from what the server lists. -/
def trashFolder (G : Strings) (s : Server) : String :=
  trashAmong G (s.folders.rows.map (folderInfo G))

/-- The two operations. -/
inductive Operation
  /-- `MoveMessages` -/
  | move (folder : String) (uids : List Nat) (destFolder : String)
  /-- `DeleteMessages` -/
  | delete (folder : String) (uids : List Nat) (permanent : Bool)

/-- Runs an operation. -/
def Operation.run (G : Strings) (F : Faults) : Operation → Server → Except String Unit × Server
  | .move folder uids destFolder => moveMessages F folder uids destFolder
  | .delete folder uids permanent => deleteMessages G F folder uids permanent

/-- What an operation owes when it returns nil. A message that is deleted moves to
the folder `FindTrashFolder` came up with, unless it is deleted for good or is in
the trash already. -/
def Operation.Owes (G : Strings) (F : Faults) (s s' : Server) : Operation → Prop
  | .move folder uids destFolder => Moved folder uids destFolder s s'
  | .delete folder uids permanent =>
    if permanent = true ∨ folder = trashFolder G s then Removed folder uids s s'
    else Moved folder uids (ensuredName (findTrashFolder G F s)) s s'

/-- What a result has to satisfy, if `owed` is owed on success. -/
def Kept (s : Server) (owed : Server → Prop) : Except String Unit × Server → Prop
  | (.error _, s') => NothingLost s s'
  | (.ok _, s') => owed s'

/-- **Conservation** of messages by a run of an operation. -/
def Operation.Conserves (G : Strings) (F : Faults) (op : Operation) (s : Server) : Prop :=
  Kept s (fun s' => op.Owes G F s s') (op.run G F s)

/-! ## When it is given -/

/-- `SetFlags` reaches its STORE and the STORE is done. -/
def stored (F : Faults) : Bool := !F.fails .selectAgain && !F.fails .store

/-- `SetFlags` and EXPUNGE together take the message out of the folder: it is
flagged `\Deleted`, if only because it was so before. -/
def gone (F : Faults) (uids : List Nat) (p : Nat × Message) : Bool :=
  !F.fails .expunge && (p.2.isDeleted || (stored F && uids.contains p.1))

/-- The move ends in an error: a folder is missing, or SELECT fails, or both MOVE and
COPY do. -/
def blocked (F : Faults) (folder dest : String) (has : String → Bool) : Bool :=
  F.fails .select || !has folder || !has dest || (F.fails .move && F.fails .copy)

/-- The move gives what a move owes: it ends in an error, or MOVE is done, or else
exactly the messages named are gone from the source and, in a move of a folder to
itself, none of the copies. -/
def MoveHolds (F : Faults) (folder : String) (uids : List Nat) (dest : String)
    (has : String → Bool) (s : Server) : Prop :=
  blocked F folder dest has = true ∨ F.fails .move = false ∨
    (∀ p ∈ s.messages folder, gone F uids p = uids.contains p.1) ∧
    (folder = dest → ∀ p ∈ copiesOf uids folder dest s, gone F uids p = false)

/-- The move gives what a removal owes, though it moves: it ends in an error, or it
finds nothing to move, or the copies go together with the messages. -/
def EraseHolds (F : Faults) (folder : String) (uids : List Nat) (dest : String)
    (has : String → Bool) (s : Server) : Prop :=
  blocked F folder dest has = true ∨
    (F.fails .move = false ∧ named uids (s.messages folder) = []) ∨
    F.fails .move = true ∧
    (∀ p ∈ s.messages folder, gone F uids p = uids.contains p.1) ∧
    ∀ p ∈ copiesOf uids folder dest s, folder = dest ∧ gone F uids p = true

/-- `EnsureFolder` creates the folder, unless it exists. -/
def creates (G : Strings) (F : Faults) (name : String) (s : Server) : Bool :=
  !(!F.fails .ensureList && s.folders.rows.any fun r => G.equalFold r.name name) &&
    !F.fails .create

/-- The deletion ends in an error. -/
def deleteBlocked (F : Faults) (folder : String) (s : Server) : Bool :=
  F.fails .select || !s.has folder || F.fails .selectAgain || F.fails .store ||
    F.fails .expunge

/-- The condition under which an operation conserves the messages. -/
def Operation.HoldsWhen (G : Strings) (F : Faults) (s : Server) : Operation → Prop
  | .move folder uids destFolder => MoveHolds F folder uids destFolder s.has s
  | .delete folder uids permanent =>
    if !permanent && !G.equalFold folder "Trash" then
      let dest := ensuredName (findTrashFolder G F s)
      let has := fun name => s.has name || (creates G F dest s && name == dest)
      -- moved to the trash, from the trash or from elsewhere
      if folder = trashFolder G s then EraseHolds F folder uids dest has s
      else MoveHolds F folder uids dest has s
    else if permanent = true ∨ folder = trashFolder G s then
      deleteBlocked F folder s = true ∨
        ∀ p ∈ s.messages folder, p.2.isDeleted = true → uids.contains p.1 = true
    else
      -- called "Trash", but the trash is another folder
      deleteBlocked F folder s = true ∨
        ∀ p ∈ s.messages folder, p.2.isDeleted = false ∧ uids.contains p.1 = false

/-! ## STORE and EXPUNGE -/

/-- The message after `SetFlags`. -/
def flagged (F : Faults) (uids : List Nat) (p : Nat × Message) : Nat × Message :=
  if stored F && uids.contains p.1 then
    (p.1, { p.2 with flags := StoreFlagsOp.add.apply [flagDeleted] p.2.flags })
  else p

/-- The messages of the folder after `SetFlags` and EXPUNGE. -/
def settled (F : Faults) (uids : List Nat) (l : List (Nat × Message)) : List (Nat × Message) :=
  (l.filter fun p => !gone F uids p).map (flagged F uids)

section Settled

variable {F : Faults} {uids : List Nat} {l : List (Nat × Message)}

@[simp] theorem flagged_fst (p : Nat × Message) : (flagged F uids p).1 = p.1 := by
  rw [flagged]
  split <;> rfl

@[simp] theorem flagged_content (p : Nat × Message) :
    (flagged F uids p).2.content = p.2.content := by
  rw [flagged]
  split <;> rfl

theorem isDeleted_flagged (p : Nat × Message) :
    (flagged F uids p).2.isDeleted = (p.2.isDeleted || (stored F && uids.contains p.1)) := by
  rw [flagged]
  by_cases h : (stored F && uids.contains p.1) = true
  · by_cases hdel : p.2.flags.contains flagDeleted = true
    · simp_all [Message.isDeleted, StoreFlagsOp.apply]
    · simp_all [Message.isDeleted, StoreFlagsOp.apply]
  · rw [if_neg h, (Bool.not_eq_true _).mp h, Bool.or_false]

/-- A message not named keeps its flags. -/
theorem flagged_of_not_named {p : Nat × Message} (h : uids.contains p.1 = false) :
    flagged F uids p = p := by
  rw [flagged, h, Bool.and_false]
  rfl

theorem settled_append (l' : List (Nat × Message)) :
    settled F uids (l ++ l') = settled F uids l ++ settled F uids l' := by
  rw [settled, List.filter_append, List.map_append]
  rfl

theorem fst_mem_settled {p : Nat × Message} (h : p ∈ settled F uids l) :
    ∃ q ∈ l, q.1 = p.1 := by
  obtain ⟨q, hq, rfl⟩ := List.mem_map.mp h
  exact ⟨q, List.mem_of_mem_filter hq, (flagged_fst q).symm⟩

/-- **The messages named leave the folder**, and no other does, just if they are the
ones that are gone. -/
theorem settled_eq_unnamed_iff
    (hinj : ∀ p ∈ l, ∀ q ∈ l, p.1 = q.1 → p = q) :
    settled F uids l = unnamed uids l ↔ ∀ p ∈ l, gone F uids p = uids.contains p.1 := by
  constructor
  · intro h p hp
    have hfst : (settled F uids l).map (·.1) = (unnamed uids l).map (·.1) := by rw [h]
    have hmem : gone F uids p = false ↔ uids.contains p.1 = false := by
      constructor
      · intro hg
        have hp' : p.1 ∈ (settled F uids l).map (·.1) := by
          refine List.mem_map.mpr ⟨flagged F uids p, List.mem_map_of_mem ?_, flagged_fst p⟩
          exact List.mem_filter.mpr ⟨hp, by simp [hg]⟩
        rw [hfst] at hp'
        obtain ⟨q, hq, hqp⟩ := List.mem_map.mp hp'
        have hq' := List.mem_filter.mp hq
        rw [hinj p hp q hq'.1 hqp.symm]
        simpa using hq'.2
      · intro hn
        have hp' : p.1 ∈ (unnamed uids l).map (·.1) :=
          List.mem_map_of_mem (List.mem_filter.mpr ⟨hp, by simpa using hn⟩)
        rw [← hfst, settled, List.map_map] at hp'
        obtain ⟨q, hq, hqp⟩ := List.mem_map.mp hp'
        have hq' := List.mem_filter.mp hq
        rw [Function.comp_apply, flagged_fst] at hqp
        rw [hinj p hp q hq'.1 hqp.symm]
        simpa using hq'.2
    cases hg : gone F uids p
    · exact (hmem.mp hg).symm
    · cases hn : uids.contains p.1
      · rw [hmem.mpr hn] at hg
        exact hg.symm
      · rfl
  · intro h
    have hfilter : (l.filter fun p => !gone F uids p) = unnamed uids l :=
      List.filter_congr fun p hp => by rw [h p hp]
    rw [settled, hfilter]
    refine (List.map_congr_left fun p hp => ?_).trans (List.map_id _)
    exact flagged_of_not_named (by simpa using (List.mem_filter.mp hp).2)

/-- A message that is not gone, though EXPUNGE was done, has the flags it had. -/
theorem flagged_of_not_gone {p : Nat × Message} (hexp : F.fails .expunge = false)
    (h : gone F uids p = false) : flagged F uids p = p := by
  rw [gone, hexp, Bool.not_false, Bool.true_and, Bool.or_eq_false_iff] at h
  rw [flagged, h.2]
  rfl

theorem settled_eq_self (hexp : F.fails .expunge = false)
    (h : ∀ p ∈ l, gone F uids p = false) : settled F uids l = l := by
  rw [settled, List.filter_eq_self.mpr fun p hp => by rw [h p hp]; rfl]
  exact (List.map_congr_left fun p hp => flagged_of_not_gone hexp (h p hp)).trans (List.map_id _)

/-- Messages none of which is lost were none of them gone. -/
theorem not_gone_of_length (h : (settled F uids l).length = l.length) :
    ∀ p ∈ l, gone F uids p = false := by
  rw [settled, List.length_map, List.length_filter_eq_length_iff] at h
  intro p hp
  simpa using h p hp

theorem settled_eq_nil : settled F uids l = [] ↔ ∀ p ∈ l, gone F uids p = true := by
  rw [settled, List.map_eq_nil_iff, List.filter_eq_nil_iff]
  simp

end Settled

/-! ## The commands of a run -/

section Commands

variable {F : Faults} {uids : List Nat} {folder dest name : String} {s s' : Server}

theorem issue_eq_ok {p : Point} {command : Server → Option Server} :
    issue F p command s = .ok s' ↔ F.fails p = false ∧ command s = some s' := by
  rw [issue]
  by_cases hf : F.fails p = true
  · simp [hf]
  · cases hc : command s <;> simp [hf]

theorem issue_eq_error {p : Point} {command : Server → Option Server} {e : String} :
    issue F p command s = .error e ↔
      (F.fails p = true ∨ command s = none) ∧ F.text p = e := by
  rw [issue]
  by_cases hf : F.fails p = true
  · simp [hf]
  · cases hc : command s <;> simp [hf]

/-- `SELECT` in a run. -/
theorem issue_select (name : String) (p : Point) :
    (F.fails p = false ∧ s.has name = true ∧
      issue F p (·.select name) s = .ok { s with selected := some name }) ∨
    ((F.fails p = true ∨ s.has name = false) ∧
      issue F p (·.select name) s = .error (F.text p)) := by
  cases h : issue F p (·.select name) s with
  | ok s' =>
    obtain ⟨hf, hsel⟩ := issue_eq_ok.mp h
    obtain ⟨hhas, rfl⟩ := select_eq_some.mp hsel
    exact .inl ⟨hf, hhas, rfl⟩
  | error e =>
    obtain ⟨hor, rfl⟩ := issue_eq_error.mp h
    refine .inr ⟨hor.imp_right fun hnone => ?_, rfl⟩
    by_contra hhas
    rw [select_eq_some.mpr ⟨by simpa using hhas, rfl⟩] at hnone
    cases hnone

/-- **`SetFlags`**, on the folder that is selected, either flags the messages named
or returns an error and leaves them as they were. -/
theorem setFlags_spec (uids : List Nat) (hsel : s.selected = some folder) (hhas : s.has folder = true) :
    ∃ r s', setFlags F folder uids [flagDeleted] "add" s = (r, s') ∧
      ((∃ e, r = .error e) ↔ stored F = false) ∧
      s'.selected = some folder ∧
      ∀ other, s'.messages other =
        if other = folder then (s.messages other).map (flagged F uids) else s.messages other := by
  have hsame : stored F = false → ∀ other, s.messages other =
      if other = folder then (s.messages other).map (flagged F uids) else s.messages other := by
    intro hst other
    have hid : flagged F uids = id := by
      funext p
      rw [flagged, hst]
      rfl
    rw [hid, List.map_id, ite_self]
  rw [setFlags]
  rcases issue_select (F := F) (s := s) folder .selectAgain with
    ⟨hf, -, h⟩ | ⟨hor, h⟩
  · rw [h]
    dsimp only
    cases hstore : issue F .store (·.store uids (storeFlagsOp "add") [flagDeleted])
        { s with selected := some folder } with
    | error e =>
      obtain ⟨hfail | hnone, -⟩ := issue_eq_error.mp hstore
      · have hst : stored F = false := by rw [stored, hfail, Bool.not_true, Bool.and_false]
        exact ⟨_, _, rfl, ⟨fun _ => hst, fun _ => ⟨e, rfl⟩⟩, rfl, hsame hst⟩
      · simp [Server.store] at hnone
    | ok s' =>
      obtain ⟨hok, hs'⟩ := issue_eq_ok.mp hstore
      have hst : stored F = true := by rw [stored, hf, hok]; rfl
      simp only [Server.store, Option.some.injEq] at hs'
      subst hs'
      refine ⟨_, _, rfl, by simp [hst], rfl, fun other => ?_⟩
      rw [messages_modify, messages_selected]
      by_cases hother : other = folder
      · rw [if_pos hother, if_pos hother]
        refine List.map_congr_left fun p _ => ?_
        rw [flagged, hst, Bool.true_and]
        split <;> rfl
      · rw [if_neg hother, if_neg hother]
  · rw [h]
    have hst : stored F = false := by
      rcases hor with hf | hno
      · rw [stored, hf]
        rfl
      · rw [hhas] at hno
        cases hno
    exact ⟨_, _, rfl, ⟨fun _ => hst, fun _ => ⟨_, rfl⟩⟩, hsel, hsame hst⟩

/-- **EXPUNGE** after `SetFlags`: together they settle the folder. -/
theorem expunge_spec (hsel : s'.selected = some folder)
    (hmsgs : ∀ other, s'.messages other =
      if other = folder then (s.messages other).map (flagged F uids) else s.messages other) :
    (F.fails .expunge = true ∧ issue F .expunge (·.expunge) s' = .error (F.text .expunge) ∧
      ∀ other, s'.messages other =
        if other = folder then settled F uids (s.messages other) else s.messages other) ∨
    (F.fails .expunge = false ∧ ∃ s'', issue F .expunge (·.expunge) s' = .ok s'' ∧
      ∀ other, s''.messages other =
        if other = folder then settled F uids (s.messages other) else s.messages other) := by
  have hsettled : ∀ l : List (Nat × Message), settled F uids l =
      (l.map (flagged F uids)).filter fun p => F.fails .expunge || !p.2.isDeleted := by
    intro l
    rw [List.filter_map, settled]
    congr 1
    refine List.filter_congr fun p _ => ?_
    rw [Function.comp_apply, isDeleted_flagged, gone]
    cases F.fails .expunge <;> simp
  cases hf : F.fails .expunge with
  | true =>
    refine .inl ⟨rfl, issue_eq_error.mpr ⟨.inl hf, rfl⟩, fun other => ?_⟩
    rw [hmsgs, hsettled, hf]
    simp
  | false =>
    refine .inr ⟨rfl, s'.onBox folder (·.keep fun p => !p.2.isDeleted),
      issue_eq_ok.mpr ⟨hf, by rw [Server.expunge, hsel]⟩, fun other => ?_⟩
    rw [messages_keep, hmsgs, hsettled, hf]
    by_cases hother : other = folder
    · simp [hother]
    · simp [hother]

end Commands

/-! ## Moving -/

section Move

variable {F : Faults} {uids : List Nat} {folder dest : String} {s s' : Server}

/-- What a move that returns nil has done to the folders. -/
inductive MoveDone (F : Faults) (folder : String) (uids : List Nat) (dest : String)
    (s s' : Server) : Prop
  /-- MOVE was done -/
  | moved (hmove : F.fails .move = false)
      (h : ∀ other, s'.messages other =
        (if other = folder then unnamed uids (s.messages other) else s.messages other) ++
          if other = dest then copiesOf uids folder dest s else [])
  /-- COPY was done, and then whatever `SetFlags` and EXPUNGE did -/
  | copied (hmove : F.fails .move = true)
      (h : ∀ other, s'.messages other =
        if other = folder then
          settled F uids
            (s.messages other ++ if other = dest then copiesOf uids folder dest s else [])
        else s.messages other ++ if other = dest then copiesOf uids folder dest s else [])

/-- **`MoveMessages`** ends in an error, with all messages where they were, or has
done one of two things. -/
theorem moveMessages_cases (F : Faults) (uids : List Nat) (folder dest : String) (s : Server) :
    ∃ r s', moveMessages F folder uids dest s = (r, s') ∧
      ((blocked F folder dest s.has = true ∧ (∃ e, r = .error e) ∧ s'.messages = s.messages) ∨
       (blocked F folder dest s.has = false ∧ r = .ok () ∧ MoveDone F folder uids dest s s')) := by
  rw [moveMessages]
  rcases issue_select (F := F) (s := s) folder .select with ⟨hf, hhas, h⟩ | ⟨hor, h⟩
  swap
  · rw [h]
    refine ⟨_, _, rfl, .inl ⟨?_, ⟨_, rfl⟩, rfl⟩⟩
    rcases hor with hor | hor <;> simp [blocked, hor]
  rw [h]
  dsimp only
  have hsel : ({ s with selected := some folder } : Server).selected = some folder := rfl
  cases hmove : issue F .move (·.move uids dest) { s with selected := some folder } with
  | ok s' =>
    obtain ⟨hfm, hs'⟩ := issue_eq_ok.mp hmove
    obtain ⟨hdest, hmsgs⟩ := move_spec hs' hsel
    rw [has_selected] at hdest
    refine ⟨_, _, rfl, .inr ⟨?_, rfl, .moved hfm hmsgs⟩⟩
    simp [blocked, hf, hhas, hdest, hfm]
  | error e =>
    dsimp only
    have hmoved := (issue_eq_error.mp hmove).1
    rw [move_eq_none_iff hsel, has_selected] at hmoved
    cases hcopy : issue F .copy (·.copy uids dest) { s with selected := some folder } with
    | error e =>
      refine ⟨_, _, rfl, .inl ⟨?_, ⟨_, rfl⟩, rfl⟩⟩
      have hcopied := (issue_eq_error.mp hcopy).1
      rw [copy_eq_none_iff hsel, has_selected] at hcopied
      rcases hmoved with hmoved | hmoved
      · rcases hcopied with hcopied | hcopied
        · simp [blocked, hmoved, hcopied]
        · simp [blocked, hcopied]
      · simp [blocked, hmoved]
    | ok s₁ =>
      dsimp only
      obtain ⟨hfc, hs₁⟩ := issue_eq_ok.mp hcopy
      obtain ⟨hdest, hsel₁, hmsgs₁⟩ := copy_spec hs₁ hsel
      rw [has_selected] at hdest
      have hfm : F.fails .move = true := by simpa [hdest] using hmoved
      have hhas₁ : s₁.has folder = true := by
        rw [Server.copy, hsel] at hs₁
        simp only [has_selected, hdest, if_true, Option.some.injEq] at hs₁
        rw [← hs₁, has_onBox, has_selected, hhas]
      obtain ⟨r, s₂, hset, -, hsel₂, hmsgs₂⟩ := setFlags_spec (F := F) uids hsel₁ hhas₁
      have hblock : blocked F folder dest s.has = false := by
        simp [blocked, hf, hhas, hdest, hfc]
      have hall : ∀ other, s₁.messages other =
          s.messages other ++ if other = dest then copiesOf uids folder dest s else [] := hmsgs₁
      rw [hset]
      rcases expunge_spec hsel₂ hmsgs₂ with ⟨-, hexp, hmsgs₃⟩ | ⟨-, s₃, hexp, hmsgs₃⟩
      · rw [hexp]
        refine ⟨_, _, rfl, .inr ⟨hblock, rfl, .copied hfm fun other => ?_⟩⟩
        rw [hmsgs₃, hall]
      · rw [hexp]
        refine ⟨_, _, rfl, .inr ⟨hblock, rfl, .copied hfm fun other => ?_⟩⟩
        rw [hmsgs₃, hall]

theorem uidNext_le_copies {p : Nat × Message} (h : p ∈ copiesOf uids folder dest s) :
    s.uidNext dest ≤ p.1 := (le_of_mem_numberFrom h).1

theorem map_snd_copiesOf (dest : String) : (copiesOf uids folder dest s).map (·.2) =
    (named uids (s.messages folder)).map (·.2) := map_snd_numberFrom _ _

theorem copiesOf_eq_nil (dest : String) :
    copiesOf uids folder dest s = [] ↔ named uids (s.messages folder) = [] := by
  rw [copiesOf, numberFrom_eq_nil, List.map_eq_nil_iff]

theorem unnamed_subset {l : List (Nat × Message)} {p : Nat × Message} (h : p ∈ unnamed uids l) :
    p ∈ l := List.mem_of_mem_filter h

/-- In the folder itself, what is left of its messages and what is left of the copies
are told apart by their UIDs. -/
theorem settled_split {rest copies : List (Nat × Message)}
    (hrest : ∀ p ∈ rest, p ∈ s.messages folder)
    (hcopies : ∀ p ∈ copies, s.uidNext folder ≤ p.1) :
    settled F uids (s.messages folder ++ copiesOf uids folder folder s) = rest ++ copies ↔
      settled F uids (s.messages folder) = rest ∧
      settled F uids (copiesOf uids folder folder s) = copies := by
  rw [settled_append]
  constructor
  · intro h
    refine eq_of_append (n := s.uidNext folder) ?_ ?_ ?_ hcopies h
    · intro p hp
      obtain ⟨q, hq, hqp⟩ := fst_mem_settled hp
      rw [← hqp]
      exact lt_uidNext hq
    · intro p hp
      obtain ⟨q, hq, hqp⟩ := fst_mem_settled hp
      rw [← hqp]
      exact uidNext_le_copies hq
    · intro p hp
      exact lt_uidNext (hrest p hp)
  · rintro ⟨h, h'⟩
    rw [h, h']

/-- The messages named are the ones gone from the source. -/
theorem settled_source_iff :
    settled F uids (s.messages folder) = unnamed uids (s.messages folder) ↔
      ∀ p ∈ s.messages folder, gone F uids p = uids.contains p.1 :=
  settled_eq_unnamed_iff fun _ hp _ hq h => eq_of_uid hp hq h

/-- If the messages named are gone, EXPUNGE was done, unless there are none. -/
theorem copies_nil_or_expunged (dest : String)
    (h : ∀ p ∈ s.messages folder, gone F uids p = uids.contains p.1) :
    copiesOf uids folder dest s = [] ∨ F.fails .expunge = false := by
  rw [copiesOf_eq_nil]
  by_cases hnil : named uids (s.messages folder) = []
  · exact .inl hnil
  · obtain ⟨p, hp⟩ := List.exists_mem_of_ne_nil _ hnil
    obtain ⟨hmem, hnamed⟩ := List.mem_filter.mp hp
    have hgone := (h p hmem).trans hnamed
    rw [gone, Bool.and_eq_true] at hgone
    exact .inr (by simpa using hgone.1)

/-- **A move by COPY** gives what a move owes just if the messages named are the ones
gone from the source, and none of the copies is. -/
theorem moved_of_copied_iff (h : ∀ other, s'.messages other =
      if other = folder then
        settled F uids
          (s.messages other ++ if other = dest then copiesOf uids folder dest s else [])
      else s.messages other ++ if other = dest then copiesOf uids folder dest s else []) :
    Moved folder uids dest s s' ↔
      (∀ p ∈ s.messages folder, gone F uids p = uids.contains p.1) ∧
      (folder = dest → ∀ p ∈ copiesOf uids folder dest s, gone F uids p = false) := by
  by_cases hself : folder = dest
  · subst hself
    have hfolder := h folder
    rw [if_pos rfl, if_pos rfl] at hfolder
    constructor
    · rintro ⟨copies, hfresh, hsame, hmsgs⟩
      have heq := hmsgs folder
      rw [if_pos rfl, if_pos rfl, hfolder,
        settled_split (fun p hp => unnamed_subset hp) hfresh] at heq
      refine ⟨settled_source_iff.mp heq.1, fun _ => not_gone_of_length ?_⟩
      have hlen := congrArg List.length hsame
      rw [← map_snd_copiesOf folder, List.length_map, List.length_map] at hlen
      rw [heq.2, hlen]
    · rintro ⟨hsource, hkept⟩
      refine ⟨copiesOf uids folder folder s, fun p hp => uidNext_le_copies hp,
        map_snd_copiesOf folder, fun other => ?_⟩
      by_cases hother : other = folder
      · subst hother
        rw [if_pos rfl, if_pos rfl, hfolder, settled_append, settled_source_iff.mpr hsource]
        rcases copies_nil_or_expunged other hsource with hnil | hexp
        · rw [hnil]
          rfl
        · rw [settled_eq_self hexp (hkept rfl)]
      · rw [h other, if_neg hother, if_neg hother, if_neg hother]
  · have hfolder := h folder
    rw [if_pos rfl, if_neg hself, List.append_nil] at hfolder
    constructor
    · rintro ⟨copies, -, -, hmsgs⟩
      have heq := hmsgs folder
      rw [if_pos rfl, if_neg hself, List.append_nil, hfolder] at heq
      exact ⟨settled_source_iff.mp heq, fun habs => absurd habs hself⟩
    · rintro ⟨hsource, -⟩
      refine ⟨copiesOf uids folder dest s, fun p hp => uidNext_le_copies hp,
        map_snd_copiesOf dest, fun other => ?_⟩
      by_cases hother : other = folder
      · subst hother
        rw [hfolder, if_pos rfl, if_neg hself, List.append_nil, settled_source_iff.mpr hsource]
      · rw [h other, if_neg hother, if_neg hother]

/-- … and what a removal owes just if the copies are gone as well. -/
theorem removed_of_copied_iff (h : ∀ other, s'.messages other =
      if other = folder then
        settled F uids
          (s.messages other ++ if other = dest then copiesOf uids folder dest s else [])
      else s.messages other ++ if other = dest then copiesOf uids folder dest s else []) :
    Removed folder uids s s' ↔
      (∀ p ∈ s.messages folder, gone F uids p = uids.contains p.1) ∧
      ∀ p ∈ copiesOf uids folder dest s, folder = dest ∧ gone F uids p = true := by
  by_cases hself : folder = dest
  · subst hself
    have hfolder := h folder
    rw [if_pos rfl, if_pos rfl] at hfolder
    have hiff : s'.messages folder = unnamed uids (s.messages folder) ↔
        (∀ p ∈ s.messages folder, gone F uids p = uids.contains p.1) ∧
        ∀ p ∈ copiesOf uids folder folder s, gone F uids p = true := by
      rw [hfolder, ← List.append_nil (unnamed uids (s.messages folder)),
        settled_split (fun p hp => unnamed_subset hp) (by simp), settled_source_iff,
        settled_eq_nil]
    constructor
    · intro hr
      have heq := hr folder
      rw [if_pos rfl, hiff] at heq
      exact ⟨heq.1, fun p hp => ⟨rfl, heq.2 p hp⟩⟩
    · rintro ⟨hsource, hgone⟩ other
      by_cases hother : other = folder
      · subst hother
        rw [if_pos rfl]
        exact hiff.mpr ⟨hsource, fun p hp => (hgone p hp).2⟩
      · rw [h other, if_neg hother, if_neg hother, if_neg hother, List.append_nil]
  · have hfolder := h folder
    rw [if_pos rfl, if_neg hself, List.append_nil] at hfolder
    constructor
    · intro hr
      have heq := hr folder
      rw [if_pos rfl, hfolder] at heq
      have hdest := hr dest
      rw [h dest, if_neg (Ne.symm hself), if_neg (Ne.symm hself), if_pos rfl] at hdest
      have hnil : copiesOf uids folder dest s = [] := List.append_right_eq_self.mp hdest
      refine ⟨settled_source_iff.mp heq, fun p hp => ?_⟩
      rw [hnil] at hp
      cases hp
    · rintro ⟨hsource, hgone⟩ other
      have hnil : copiesOf uids folder dest s = [] :=
        List.eq_nil_iff_forall_not_mem.mpr fun p hp => hself (hgone p hp).1
      by_cases hother : other = folder
      · subst hother
        rw [hfolder, if_pos rfl, settled_source_iff.mpr hsource]
      · rw [h other, if_neg hother, if_neg hother, hnil, ite_self, List.append_nil]

/-- MOVE is what a move owes, -/
theorem moved_of_moved (h : ∀ other, s'.messages other =
      (if other = folder then unnamed uids (s.messages other) else s.messages other) ++
        if other = dest then copiesOf uids folder dest s else []) :
    Moved folder uids dest s s' :=
  ⟨copiesOf uids folder dest s, fun _ hp => uidNext_le_copies hp, map_snd_copiesOf dest, h⟩

/-- and what a removal owes only if there is nothing to move. -/
theorem removed_of_moved_iff (h : ∀ other, s'.messages other =
      (if other = folder then unnamed uids (s.messages other) else s.messages other) ++
        if other = dest then copiesOf uids folder dest s else []) :
    Removed folder uids s s' ↔ named uids (s.messages folder) = [] := by
  rw [← copiesOf_eq_nil dest]
  constructor
  · intro hr
    have hdest := hr dest
    rw [h dest, if_pos rfl] at hdest
    exact List.append_right_eq_self.mp hdest
  · intro hnil other
    rw [h other, hnil, ite_self, List.append_nil]

theorem nothingLost_of_messages (h : s'.messages = s.messages) : NothingLost s s' := by
  intro other
  rw [h]

/-- **A move** conserves the messages just when its condition is met. -/
theorem kept_moved_iff : Kept s (Moved folder uids dest s) (moveMessages F folder uids dest s) ↔
    MoveHolds F folder uids dest s.has s := by
  obtain ⟨r, s', hrun, ⟨hblock, ⟨e, rfl⟩, hmsgs⟩ | ⟨hblock, rfl, hdone⟩⟩ :=
    moveMessages_cases F uids folder dest s
  · rw [hrun]
    exact iff_of_true (nothingLost_of_messages hmsgs) (.inl hblock)
  · rw [hrun, Kept, MoveHolds, hblock]
    cases hdone with
    | moved hmove h =>
      exact iff_of_true (moved_of_moved h) (.inr (.inl hmove))
    | copied hmove h =>
      rw [moved_of_copied_iff h, hmove]
      simp

/-- **A move that should be a removal** does so just when that condition is met. -/
theorem kept_removed_iff :
    Kept s (Removed folder uids s) (moveMessages F folder uids dest s) ↔
      EraseHolds F folder uids dest s.has s := by
  obtain ⟨r, s', hrun, ⟨hblock, ⟨e, rfl⟩, hmsgs⟩ | ⟨hblock, rfl, hdone⟩⟩ :=
    moveMessages_cases F uids folder dest s
  · rw [hrun]
    exact iff_of_true (nothingLost_of_messages hmsgs) (.inl hblock)
  · rw [hrun, Kept, EraseHolds, hblock]
    cases hdone with
    | moved hmove h =>
      rw [removed_of_moved_iff h, hmove]
      simp
    | copied hmove h =>
      rw [removed_of_copied_iff h, hmove]
      simp

end Move

/-! ## Deleting -/

section Delete

variable {G : Strings} {F : Faults} {uids : List Nat} {folder dest : String} {s s' : Server}

/-- **`EnsureFolder`** changes no message; the folder may exist afterwards that did
not before. -/
theorem ensureFolder_spec (folder : String) :
    ∃ e s', ensureFolder G F folder s = ((ensuredName folder, e), s') ∧
    s'.messages = s.messages ∧ s'.uidNext = s.uidNext ∧
    s'.has = fun name =>
      s.has name || (creates G F (ensuredName folder) s && name == ensuredName folder) := by
  rw [ensureFolder]
  by_cases hlisted : (!F.fails .ensureList &&
      s.folders.rows.any fun r => G.equalFold r.name (ensuredName folder)) = true
  · refine ⟨none, s, by rw [if_pos hlisted], rfl, rfl, funext fun name => ?_⟩
    simp [creates, hlisted]
  · rw [if_neg hlisted]
    rw [Bool.not_eq_true] at hlisted
    cases hc : issue F .create (·.create (ensuredName folder)) s with
    | error e =>
      refine ⟨_, s, rfl, rfl, rfl, funext fun name => ?_⟩
      obtain ⟨hor, -⟩ := issue_eq_error.mp hc
      by_cases hf : F.fails .create = true
      · simp [creates, hf]
      · -- refused: the folder exists, though under another spelling or not listed
        have hnone : s.create (ensuredName folder) = none := by simpa [hf] using hor
        have hhas := has_of_create_eq_none hnone
        by_cases hn : name = ensuredName folder
        · rw [hn, hhas, Bool.true_or]
        · simp [hn]
    | ok s₁ =>
      obtain ⟨hf, hs₁⟩ := issue_eq_ok.mp hc
      obtain ⟨hmsgs, hnext, hhas⟩ := create_spec hs₁
      refine ⟨_, s₁, rfl, hmsgs, hnext, funext fun name => ?_⟩
      rw [hhas, creates, hlisted, hf]
      rfl

/-- What is owed says nothing of a folder but its messages and its UIDNEXT. -/
theorem moved_congr {s₁ : Server} (hmsgs : s₁.messages = s.messages)
    (hnext : s₁.uidNext = s.uidNext) :
    Moved folder uids dest s₁ = Moved folder uids dest s := by
  funext s'
  rw [Moved, Moved, hmsgs, hnext]

theorem removed_congr {s₁ : Server} (hmsgs : s₁.messages = s.messages) :
    Removed folder uids s₁ = Removed folder uids s := by
  funext s'
  rw [Removed, Removed, hmsgs]

theorem kept_congr {s₁ : Server} {owed : Server → Prop} {r : Except String Unit × Server}
    (hmsgs : s₁.messages = s.messages) : Kept s₁ owed r ↔ Kept s owed r := by
  obtain ⟨r, s'⟩ := r
  cases r with
  | error e => rw [Kept, Kept, NothingLost, NothingLost, hmsgs]
  | ok => exact Iff.rfl

theorem copiesOf_congr {s₁ : Server} (hmsgs : s₁.messages = s.messages)
    (hnext : s₁.uidNext = s.uidNext) :
    copiesOf uids folder dest s₁ = copiesOf uids folder dest s := by
  rw [copiesOf, copiesOf, hmsgs, hnext]

/-- The first half of `DeleteMessages`, which moves to the trash. -/
theorem deleteMessages_toTrash (uids : List Nat) {permanent : Bool}
    (hmove : (!permanent && !G.equalFold folder "Trash") = true) :
    ∃ s₁, s₁.messages = s.messages ∧ s₁.uidNext = s.uidNext ∧
      (s₁.has = fun name => s.has name ||
        (creates G F (ensuredName (findTrashFolder G F s)) s &&
          name == ensuredName (findTrashFolder G F s))) ∧
      deleteMessages G F folder uids permanent s =
        moveMessages F folder uids (ensuredName (findTrashFolder G F s)) s₁ := by
  obtain ⟨e, s₁, hens, hmsgs, hnext, hhas⟩ :=
    ensureFolder_spec (G := G) (F := F) (s := s) (findTrashFolder G F s)
  refine ⟨s₁, hmsgs, hnext, hhas, ?_⟩
  rw [deleteMessages, if_pos hmove]
  dsimp only
  rw [hens]

/-- **The second half**, which flags and expunges: it ends in an error, with all
messages where they were, or the folder is settled. -/
theorem deleteMessages_forGood (uids : List Nat) {permanent : Bool}
    (hmove : (!permanent && !G.equalFold folder "Trash") = false) :
    ∃ r s', deleteMessages G F folder uids permanent s = (r, s') ∧
      ((deleteBlocked F folder s = true ∧ (∃ e, r = .error e) ∧ NothingLost s s') ∨
       (deleteBlocked F folder s = false ∧ r = .ok () ∧ ∀ other, s'.messages other =
          if other = folder then settled F uids (s.messages other) else s.messages other)) := by
  rw [deleteMessages, hmove, if_neg Bool.false_ne_true]
  rcases issue_select (F := F) (s := s) folder .select with ⟨hf, hhas, h⟩ | ⟨hor, h⟩
  swap
  · rw [h]
    refine ⟨_, _, rfl, .inl ⟨?_, ⟨_, rfl⟩, fun _ => rfl⟩⟩
    rcases hor with hor | hor <;> simp [deleteBlocked, hor]
  rw [h]
  dsimp only
  obtain ⟨r, s₁, hset, herr, hsel, hmsgs⟩ := setFlags_spec (F := F) uids
    (s := { s with selected := some folder }) rfl hhas
  simp only [messages_selected] at hmsgs
  have hlost : NothingLost s s₁ := by
    intro other
    rw [hmsgs]
    split
    · rw [List.map_map]
      exact List.map_congr_left fun p _ => by simp
    · rfl
  rw [hset]
  cases r with
  | error e =>
    refine ⟨_, _, rfl, .inl ⟨?_, ⟨_, rfl⟩, hlost⟩⟩
    have hst := herr.mp ⟨e, rfl⟩
    rw [stored, Bool.and_eq_false_iff, Bool.not_eq_false', Bool.not_eq_false'] at hst
    rcases hst with hst | hst <;> simp [deleteBlocked, hst]
  | ok =>
    have hst : stored F = true := by
      by_contra hno
      obtain ⟨e, he⟩ := herr.mpr (by simpa using hno)
      cases he
    rw [stored, Bool.and_eq_true, Bool.not_eq_true', Bool.not_eq_true'] at hst
    dsimp only
    rcases expunge_spec hsel hmsgs with ⟨hfail, hexp, -⟩ | ⟨hok, s₂, hexp, hmsgs₂⟩
    · rw [hexp]
      exact ⟨_, _, rfl, .inl ⟨by simp [deleteBlocked, hfail], ⟨_, rfl⟩, hlost⟩⟩
    · rw [hexp]
      exact ⟨_, _, rfl, .inr ⟨by simp [deleteBlocked, hf, hhas, hst, hok], rfl, hmsgs₂⟩⟩

/-- When the deletion runs to its end, a message is gone if it was flagged or is named. -/
theorem gone_of_not_blocked (h : deleteBlocked F folder s = false) (p : Nat × Message) :
    gone F uids p = (p.2.isDeleted || uids.contains p.1) := by
  simp only [deleteBlocked, Bool.or_eq_false_iff] at h
  rw [gone, stored, h.1.1.2, h.1.2, h.2]
  rfl

/-- A folder that is settled has lost just the messages named … -/
theorem removed_of_settled_iff (hblock : deleteBlocked F folder s = false)
    (h : ∀ other, s'.messages other =
      if other = folder then settled F uids (s.messages other) else s.messages other) :
    Removed folder uids s s' ↔
      ∀ p ∈ s.messages folder, p.2.isDeleted = true → uids.contains p.1 = true := by
  have hiff : Removed folder uids s s' ↔
      settled F uids (s.messages folder) = unnamed uids (s.messages folder) := by
    constructor
    · intro hr
      have heq := hr folder
      rwa [h folder, if_pos rfl, if_pos rfl] at heq
    · intro heq other
      by_cases hother : other = folder
      · subst hother
        rw [h other, if_pos rfl, if_pos rfl, heq]
      · rw [h other, if_neg hother, if_neg hother]
  rw [hiff, settled_source_iff]
  refine forall₂_congr fun p _ => ?_
  rw [gone_of_not_blocked hblock]
  cases p.2.isDeleted <;> simp

/-- … and moved them only if there were none. -/
theorem moved_of_settled_iff (hblock : deleteBlocked F folder s = false)
    (h : ∀ other, s'.messages other =
      if other = folder then settled F uids (s.messages other) else s.messages other) :
    Moved folder uids dest s s' ↔
      ∀ p ∈ s.messages folder, p.2.isDeleted = false ∧ uids.contains p.1 = false := by
  constructor
  · rintro ⟨copies, hfresh, hsame, hmsgs⟩
    have hnil : copies = [] := by
      refine List.eq_nil_iff_forall_not_mem.mpr fun p hp => ?_
      have hdest := hmsgs dest
      rw [if_pos rfl, h dest] at hdest
      -- a copy has a UID that no message of the destination had
      have hmem : ∃ q ∈ s.messages dest, q.1 = p.1 := by
        by_cases hself : dest = folder
        · rw [if_pos hself, if_pos hself] at hdest
          have hp' : p ∈ settled F uids _ := hdest ▸ List.mem_append_right _ hp
          exact fst_mem_settled hp'
        · rw [if_neg hself, if_neg hself] at hdest
          exact ⟨p, hdest ▸ List.mem_append_right _ hp, rfl⟩
      obtain ⟨q, hq, hqp⟩ := hmem
      have hlt := lt_uidNext hq
      have hle := hfresh p hp
      omega
    have hnamed : named uids (s.messages folder) = [] := by
      rw [hnil, List.map_nil] at hsame
      exact List.map_eq_nil_iff.mp hsame.symm
    have hr : Removed folder uids s s' := by
      intro other
      rw [hmsgs other, hnil, ite_self, List.append_nil]
    have hdel := (removed_of_settled_iff hblock h).mp hr
    intro p hp
    have hun : uids.contains p.1 = false := by
      simpa using List.filter_eq_nil_iff.mp hnamed p hp
    refine ⟨?_, hun⟩
    by_contra hd
    rw [hdel p hp (by simpa using hd)] at hun
    cases hun
  · intro hall
    have hnamed : named uids (s.messages folder) = [] :=
      List.filter_eq_nil_iff.mpr fun p hp => by rw [(hall p hp).2]; exact Bool.false_ne_true
    have hr : Removed folder uids s s' := (removed_of_settled_iff hblock h).mpr
      fun p hp hd => absurd (hall p hp).1 (by rw [hd]; exact Bool.true_eq_false.mp)
    refine ⟨[], by simp, by rw [hnamed], fun other => ?_⟩
    rw [hr other, ite_self, List.append_nil]

end Delete

/-! ## The condition is exact -/

/-- **Conservation.** A run of an operation conserves the messages just when its
condition is met: for every folder, UID set, destination and state of the server, and
whichever commands fail. -/
theorem Operation.conserves_iff (G : Strings) (F : Faults) (op : Operation) (s : Server) :
    op.Conserves G F s ↔ op.HoldsWhen G F s := by
  cases op with
  | move folder uids destFolder => exact kept_moved_iff
  | delete folder uids permanent =>
    rw [Conserves, run, HoldsWhen]
    by_cases hmove : (!permanent && !G.equalFold folder "Trash") = true
    · obtain ⟨s₁, hmsgs, hnext, hhas, hrun⟩ :=
        deleteMessages_toTrash (F := F) (s := s) uids hmove
      have hperm : permanent ≠ true := by
        rintro rfl
        cases hmove
      rw [if_pos hmove, hrun, ← kept_congr hmsgs]
      by_cases htrash : folder = trashFolder G s
      · simp only [Owes, if_pos htrash, if_pos (Or.inr htrash : permanent = true ∨ _)]
        rw [← removed_congr hmsgs, kept_removed_iff, hhas, EraseHolds, EraseHolds,
          copiesOf_congr hmsgs hnext, hmsgs]
      · have howes : ¬(permanent = true ∨ folder = trashFolder G s) := by
          rintro (h | h)
          · exact hperm h
          · exact htrash h
        simp only [Owes, if_neg htrash, if_neg howes]
        rw [← moved_congr hmsgs hnext, kept_moved_iff, hhas, MoveHolds, MoveHolds,
          copiesOf_congr hmsgs hnext, hmsgs]
    · rw [if_neg hmove]
      rw [Bool.not_eq_true] at hmove
      obtain ⟨r, s', hrun, ⟨hblock, ⟨e, rfl⟩, hlost⟩ | ⟨hblock, rfl, hmsgs⟩⟩ :=
        deleteMessages_forGood (F := F) (s := s) uids hmove
      · rw [hrun, hblock]
        refine iff_of_true hlost ?_
        split <;> exact .inl rfl
      · rw [hrun, hblock, Kept]
        by_cases howes : permanent = true ∨ folder = trashFolder G s
        · simp only [Owes, if_pos howes]
          rw [removed_of_settled_iff hblock hmsgs]
          simp
        · simp only [Owes, if_neg howes]
          rw [moved_of_settled_iff hblock hmsgs]
          simp

/-- The MOVE is refused, as by a server that does not know the command. -/
def moveRefused : Faults where
  fails p := p == .move
  text _ := "BAD"

/-- An inbox with two messages, the second of which is flagged `\Deleted`, and an
archive. -/
def twoInbox : Server where
  folders := ⟨[⟨"INBOX", [], Numbered.add
      [⟨[], ⟨"<a>", [], "one", 0, [], ""⟩⟩, ⟨[flagDeleted], ⟨"<b>", [], "two", 0, [], ""⟩⟩]
      Numbered.empty⟩, ⟨"Archive", [], Numbered.empty⟩], by decide⟩
  selected := none

/-- The first message moves, and the second is gone. -/
theorem other_message_expunged :
    ¬ (Operation.move "INBOX" [1] "Archive").Conserves asciiStrings moveRefused twoInbox := by
  intro h
  have hrun : (moveMessages moveRefused "INBOX" [1] "Archive" twoInbox).1 = .ok () := by
    decide +kernel
  have hleft : (moveMessages moveRefused "INBOX" [1] "Archive" twoInbox).2.messages "INBOX" = [] := by
    decide +kernel
  rw [Operation.Conserves, Operation.run] at h
  obtain ⟨r, s', hr⟩ : ∃ r s', moveMessages moveRefused "INBOX" [1] "Archive" twoInbox = (r, s') :=
    ⟨_, _, rfl⟩
  rw [hr] at h hrun hleft
  dsimp only at hrun hleft
  subst hrun
  obtain ⟨copies, -, -, hmsgs⟩ : Moved "INBOX" [1] "Archive" twoInbox s' := h
  have hinbox := hmsgs "INBOX"
  rw [hleft, if_pos rfl, if_neg (by decide), List.append_nil] at hinbox
  exact absurd hinbox (by decide +kernel)

end E2Mail.Imap
