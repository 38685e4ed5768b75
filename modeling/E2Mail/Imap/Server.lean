import E2Mail.Lib.Numbered
import E2Mail.Lib.Table

/-!
# The IMAP server

The server keeps mailboxes, and each mailbox keeps messages in the order of
their UIDs. A command either succeeds or changes nothing; the commands below are
the ones the client issues, with the effect IMAP gives them.

* `Mailbox` — the messages under their UIDs, and UIDNEXT;
* `Server` — the folders, and the one that is selected;
* `Server.select`, `Server.move`, … — the commands, `none` where the server
  answers NO;
* `messages_…` — what each of them leaves in each folder.
-/

namespace E2Mail.Imap

open Lib

/-- What a message is to the client, apart from its UID and flags: the ENVELOPE
and the References header. -/
structure Content where
  /-- Message-ID, as in the ENVELOPE -/
  messageID : String
  /-- In-Reply-To, as in the ENVELOPE -/
  inReplyTo : List String
  /-- Subject -/
  subject : String
  /-- Date -/
  date : Nat
  /-- From: the display names and addresses -/
  senders : List (String × String)
  /-- the header bytes of References -/
  references : String
  deriving DecidableEq, Repr

/-- A message in a mailbox. -/
structure Message where
  /-- its flags -/
  flags : List String
  /-- the rest -/
  content : Content
  deriving DecidableEq, Repr

/-- `imap.FlagDeleted`. -/
def flagDeleted : String := "\\Deleted"

/-- Flagged `\Deleted`: the next EXPUNGE removes it. -/
def Message.isDeleted (m : Message) : Bool := m.flags.contains flagDeleted

/-- The messages of a folder under their UIDs. -/
abbrev Mailbox := Numbered Message

/-- A folder as LIST shows it, and its mailbox. -/
structure Folder where
  /-- its name -/
  name : String
  /-- `mb.Attrs`, its attributes in the LIST response -/
  attrs : List String
  /-- its messages -/
  box : Mailbox

/-- The account on the server. -/
structure Server where
  /-- the folders, in the order LIST shows them -/
  folders : Table Folder.name
  /-- the selected folder -/
  selected : Option String

/-- `StoreFlagsOp`. -/
inductive StoreFlagsOp
  | add
  | del
  | set
  deriving DecidableEq, Repr

/-- The flags of a message after a STORE. -/
def StoreFlagsOp.apply (op : StoreFlagsOp) (flags old : List String) : List String :=
  match op with
  | .add => old ++ flags.filter fun f => !old.contains f
  | .del => old.filter fun f => !flags.contains f
  | .set => flags

namespace Server

/-- The mailbox of a name. -/
def box? (s : Server) (name : String) : Option Mailbox :=
  (s.folders.rows.find? fun r => r.name == name).map Folder.box

/-- There is a folder of the name. -/
def has (s : Server) (name : String) : Bool := (s.box? name).isSome

/-- The messages of a folder; none, where there is no such folder. -/
def messages (s : Server) (name : String) : List (Nat × Message) :=
  ((s.box? name).map Numbered.items).getD []

/-- The UIDNEXT of a folder. -/
def uidNext (s : Server) (name : String) : Nat := ((s.box? name).map Numbered.next).getD 1

/-- Changes the mailbox of a name. -/
def onBox (name : String) (f : Mailbox → Mailbox) (s : Server) : Server :=
  { s with folders :=
      s.folders.update (fun r => r.name == name) (fun r => { r with box := f r.box }) fun _ => rfl }

/-! ## Commands -/

/-- `SELECT`. -/
def select (name : String) (s : Server) : Option Server :=
  if s.has name then some { s with selected := some name } else none

/-- `CREATE`: refused when the folder exists. -/
def create (name : String) (s : Server) : Option Server :=
  (s.folders.insert? ⟨name, [], Numbered.empty⟩).map fun t => { s with folders := t }

/-- The messages of the list that the UID set names. -/
def named (uids : List Nat) (l : List (Nat × Message)) : List (Nat × Message) :=
  l.filter fun p => uids.contains p.1

/-- The messages of the list that it does not name. -/
def unnamed (uids : List Nat) (l : List (Nat × Message)) : List (Nat × Message) :=
  l.filter fun p => !uids.contains p.1

/-- `UID COPY`: the messages named that exist, at the end of the destination under
new UIDs and with their flags. -/
def copy (uids : List Nat) (dest : String) (s : Server) : Option Server :=
  match s.selected with
  | none => none
  | some name =>
    if s.has dest then
      some (s.onBox dest (·.add ((named uids (s.messages name)).map (·.2))))
    else none

/-- `UID MOVE`: a COPY that takes the messages named out of the source, as one
step. -/
def move (uids : List Nat) (dest : String) (s : Server) : Option Server :=
  match s.selected with
  | none => none
  | some name =>
    if s.has dest then
      some ((s.onBox name (·.keep fun p => !uids.contains p.1)).onBox dest
        (·.add ((named uids (s.messages name)).map (·.2))))
    else none

/-- `UID STORE`. -/
def store (uids : List Nat) (op : StoreFlagsOp) (flags : List String) (s : Server) :
    Option Server :=
  match s.selected with
  | none => none
  | some name =>
    some (s.onBox name (·.modify fun uid m =>
      if uids.contains uid then { m with flags := op.apply flags m.flags } else m))

/-- `EXPUNGE`: every message of the selected folder flagged `\Deleted` goes. -/
def expunge (s : Server) : Option Server :=
  match s.selected with
  | none => none
  | some name => some (s.onBox name (·.keep fun p => !p.2.isDeleted))

/-! ## What a change of one mailbox leaves -/

section OnBox

variable {s s' : Server} {name other : String} {f : Mailbox → Mailbox}

@[simp] theorem selected_onBox : (s.onBox name f).selected = s.selected := rfl

theorem box?_onBox : (s.onBox name f).box? other =
    if other = name then (s.box? other).map f else s.box? other := by
  have hfind : (s.onBox name f).box? other =
      (s.folders.rows.find? fun r => r.name == other).map fun r =>
        if r.name == name then f r.box else r.box := by
    rw [box?, onBox, Table.rows_update, List.find?_map, Option.map_map]
    have hkey : ((fun r : Folder => r.name == other) ∘ fun r : Folder =>
        if r.name == name then { r with box := f r.box } else r) = fun r => r.name == other := by
      funext r
      simp only [Function.comp_apply]
      split <;> rfl
    rw [hkey]
    refine congrArg (Option.map · _) (funext fun r => ?_)
    simp only [Function.comp_apply]
    split <;> rfl
  rw [hfind, box?]
  cases hr : s.folders.rows.find? fun r => r.name == other with
  | none => simp
  | some r =>
    have hname : r.name = other := by simpa using List.find?_some hr
    subst hname
    by_cases h : r.name = name
    · simp [h]
    · simp [h]

@[simp] theorem has_onBox : (s.onBox name f).has other = s.has other := by
  rw [has, has, box?_onBox]
  split <;> simp

/-- Of the messages of a folder, each has a UID below UIDNEXT. -/
theorem lt_uidNext {p : Nat × Message} (h : p ∈ s.messages name) : p.1 < s.uidNext name := by
  cases hbox : s.box? name with
  | none => simp [messages, hbox] at h
  | some b =>
    rw [messages, hbox] at h
    rw [uidNext, hbox]
    exact b.below p h

/-- A UID names one message of a folder. -/
theorem eq_of_uid {p q : Nat × Message} (hp : p ∈ s.messages name) (hq : q ∈ s.messages name)
    (h : p.1 = q.1) : p = q := by
  cases hbox : s.box? name with
  | none => simp [messages, hbox] at hp
  | some b =>
    rw [messages, hbox] at hp hq
    exact Numbered.eq_of_number hp hq h

theorem messages_keep (p : Nat × Message → Bool) :
    (s.onBox name (·.keep p)).messages other =
      if other = name then (s.messages other).filter p else s.messages other := by
  rw [messages, messages, box?_onBox]
  by_cases h : other = name
  · cases hbox : s.box? other <;> simp [h]
  · simp [h]

theorem messages_modify (g : Nat → Message → Message) :
    (s.onBox name (·.modify g)).messages other =
      if other = name then (s.messages other).map fun p => (p.1, g p.1 p.2)
      else s.messages other := by
  rw [messages, messages, box?_onBox]
  by_cases h : other = name
  · cases hbox : s.box? other <;> simp [h]
  · simp [h]

theorem messages_add (l : List Message) (h : s.has name = true) :
    (s.onBox name (·.add l)).messages other =
      s.messages other ++ if other = name then numberFrom (s.uidNext name) l else [] := by
  obtain ⟨b, hb⟩ := Option.isSome_iff_exists.mp h
  rw [messages, messages, box?_onBox]
  by_cases hname : other = name
  · simp [hname, uidNext, hb]
  · simp [hname]

theorem uidNext_keep (p : Nat × Message → Bool) :
    (s.onBox name (·.keep p)).uidNext other = s.uidNext other := by
  rw [uidNext, uidNext, box?_onBox]
  by_cases h : other = name
  · cases hbox : s.box? other <;> simp [h]
  · simp [h]

end OnBox

/-! ## What each command leaves -/

section Commands

variable {s s' : Server} {name dest other : String} {uids : List Nat}

theorem select_eq_some : s.select name = some s' ↔
    s.has name = true ∧ s' = { s with selected := some name } := by
  rw [select]
  by_cases h : s.has name = true
  · simp [h, eq_comm]
  · simp [h]

@[simp] theorem messages_selected (n : Option String) :
    ({ s with selected := n } : Server).messages other = s.messages other := rfl

@[simp] theorem uidNext_selected (n : Option String) :
    ({ s with selected := n } : Server).uidNext other = s.uidNext other := rfl

@[simp] theorem has_selected (n : Option String) :
    ({ s with selected := n } : Server).has other = s.has other := rfl

/-- A new folder is empty, and the others are as they were. -/
theorem create_spec (h : s.create name = some s') :
    s'.messages = s.messages ∧ s'.uidNext = s.uidNext ∧
      ∀ other, s'.has other = (s.has other || other == name) := by
  obtain ⟨t, ht, rfl⟩ := Option.map_eq_some_iff.mp h
  obtain ⟨hnew, hrows⟩ := Table.insert?_eq_some.mp ht
  have hbox : ∀ other, ({ s with folders := t } : Server).box? other =
      (s.box? other).or (if other = name then some Numbered.empty else none) := by
    intro other
    rw [box?, box?, hrows, List.find?_append, List.find?_singleton, Option.map_or]
    by_cases hn : other = name
    · simp [hn]
    · simp [hn, Ne.symm hn]
  refine ⟨funext fun other => ?_, funext fun other => ?_, fun other => ?_⟩
  · rw [messages, messages, hbox]
    cases s.box? other <;> by_cases hn : other = name <;> simp [hn]
  · rw [uidNext, uidNext, hbox]
    cases s.box? other <;> by_cases hn : other = name <;> simp [hn, Numbered.empty]
  · rw [has, has, hbox]
    cases s.box? other <;> by_cases hn : other = name <;> simp [hn]

/-- CREATE is refused only for a folder that exists. -/
theorem has_of_create_eq_none (h : s.create name = none) : s.has name = true := by
  rw [create, Option.map_eq_none_iff, Table.insert?_eq_none] at h
  obtain ⟨r, hr, hrn⟩ := List.mem_map.mp h
  by_contra hno
  have hbox : s.box? name = none := by simpa [has] using hno
  rw [box?, Option.map_eq_none_iff, List.find?_eq_none] at hbox
  exact absurd hrn (by simpa using hbox r hr)

/-- **COPY** adds to the destination what the UID set names in the source. -/
theorem copy_spec (h : s.copy uids dest = some s') (hsel : s.selected = some name) :
    s.has dest = true ∧ s'.selected = s.selected ∧
      ∀ other, s'.messages other = s.messages other ++
        if other = dest then
          numberFrom (s.uidNext dest) ((named uids (s.messages name)).map (·.2))
        else [] := by
  rw [copy, hsel] at h
  by_cases hdest : s.has dest = true
  · simp only [hdest, if_true, Option.some.injEq] at h
    subst h
    exact ⟨hdest, rfl, fun other => messages_add _ hdest⟩
  · simp [hdest] at h

/-- **MOVE** does so too, and takes them out of the source. -/
theorem move_spec (h : s.move uids dest = some s') (hsel : s.selected = some name) :
    s.has dest = true ∧
      ∀ other, s'.messages other =
        (if other = name then unnamed uids (s.messages other) else s.messages other) ++
          if other = dest then
            numberFrom (s.uidNext dest) ((named uids (s.messages name)).map (·.2))
          else [] := by
  rw [move, hsel] at h
  by_cases hdest : s.has dest = true
  · simp only [hdest, if_true, Option.some.injEq] at h
    subst h
    refine ⟨hdest, fun other => ?_⟩
    rw [messages_add _ (by rwa [has_onBox]), messages_keep, uidNext_keep]
    rfl
  · simp [hdest] at h

/-- COPY and MOVE are refused for the same reason. -/
theorem copy_eq_none_iff (hsel : s.selected = some name) :
    s.copy uids dest = none ↔ s.has dest = false := by
  rw [copy, hsel]
  by_cases hdest : s.has dest = true
  · simp [hdest]
  · simp [hdest]

theorem move_eq_none_iff (hsel : s.selected = some name) :
    s.move uids dest = none ↔ s.has dest = false := by
  rw [move, hsel]
  by_cases hdest : s.has dest = true
  · simp [hdest]
  · simp [hdest]

end Commands

end Server

end E2Mail.Imap
