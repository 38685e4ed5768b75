import Mathlib.Data.List.Sort
import E2Mail.Lib.Calendar
import E2Mail.Lib.KeyMap
import E2Mail.Lib.Rotation
import E2Mail.Lib.Stamp

/-!
# Snapshots of the database

`runIfDue` writes a snapshot of the database for each day, week or month, and prunes the older ones.
Which are older it takes from their names.

* `backup`, `prune`, `runIfDue` — the run, with all that the file system may answer.
* `Rotated` — what a run that writes a snapshot makes of the directory.
* `Rotates` — what a schedule promises: every such run rotates, and the names are in order of time.
* `rotates` — each schedule does.
-/

namespace E2Mail.Backend.Snapshots

open Lib Lib.Calendar Lib.Rotation Lib.Stamp

/-! ## Names -/

/-- `DBBackupSchedule` -/
inductive Schedule where
  | disable
  | daily
  | weekly
  | monthly
  deriving DecidableEq

/-- `strings.ToLower(schedule)` -/
def Schedule.lower : Schedule → List Char
  | .disable => "disable".toList
  | .daily => "daily".toList
  | .weekly => "weekly".toList
  | .monthly => "monthly".toList

/-- `time.Time`: nanoseconds since the start of year 1, in UTC. -/
abbrev Time : Type := Nat

/-- Its day, in UTC. -/
def Time.day (t : Time) : Nat := t / 86400000000000

/-- `backupRetention` -/
def backupRetention : Schedule → Nat
  | .daily => 7
  | .weekly => 4
  | .monthly => 12
  | .disable => 0

/-- `backupPeriodKey` -/
def backupPeriodKey (schedule : Schedule) (t : Time) : List Char :=
  match schedule with
  | .daily => pad 4 (yearOf t.day) ++ '-' :: (pad 2 (monthOf t.day) ++ '-' :: pad 2 (monthDay t.day))
  | .weekly => pad 4 (isoYear t.day) ++ '-' :: 'W' :: pad 2 (isoWeek t.day)
  | .monthly => pad 4 (yearOf t.day) ++ '-' :: pad 2 (monthOf t.day)
  | .disable => []

/-- What the names of a schedule begin with. -/
def namePrefix (schedule : Schedule) : List Char := "e2Mail.".toList ++ (schedule.lower ++ ['.'])

/-- `backupFileName` -/
def backupFileName (schedule : Schedule) (t : Time) : List Char :=
  namePrefix schedule ++ (backupPeriodKey schedule t ++ ".db".toList)

/-! ## The directory -/

/-- What a directory has under a name. -/
inductive Entry where
  /-- a file with its content -/
  | file (content : String)
  /-- a directory, that may have entries of its own -/
  | dir (empty : Bool)

/-- `IsDir` -/
def Entry.isDir : Entry → Bool
  | .file _ => false
  | .dir _ => true

/-- The backup directory. -/
abbrev Dir : Type := KeyMap (List Char) Entry

/-- What the file system and the database answer: an error, or nothing if there is none. -/
structure Answers where
  stat : Option String
  mkdirAll : Option String
  /-- the snapshot, or an error and what there is of a file -/
  vacuum : Except (String × Option String) String
  rename : Option String
  /-- the removal after a failure -/
  cleanup : Option String
  readDir : Option String
  remove : List Char → Option String

/-- The errors of `os.Remove`. -/
inductive RemoveError where
  /-- `os.IsNotExist` -/
  | notExist
  | other (text : String)

/-- `os.Remove`, in the directory. -/
def osRemove (answer : Option String) (name : List Char) (d : Dir) : Option RemoveError × Dir :=
  match answer with
  | some text => (some (.other text), d)
  | none =>
    match d.get name with
    | none => (some .notExist, d)
    | some (.dir false) => (some (.other "directory not empty"), d)
    | some _ => (none, d.erase name)

/-- `VACUUM INTO`: an empty file may be there already. -/
def vacuumInto (a : Answers) (tmp : List Char) (d : Dir) : Option String × Dir :=
  match a.vacuum with
  | .error (text, none) => (some text, d)
  | .error (text, some begun) => (some text, d.put tmp (.file begun))
  | .ok content =>
    match d.get tmp with
    | none | some (.file "") => (none, d.put tmp (.file content))
    | some _ => (some "output file already exists", d)

/-- `os.Rename` of a file. -/
def osRename (a : Answers) (tmp dest : List Char) (d : Dir) : Option String × Dir :=
  match a.rename with
  | some text => (some text, d)
  | none =>
    match d.get tmp, d.get dest with
    | none, _ => (some "no such file or directory", d)
    | some _, some (.dir _) => (some "file exists", d)
    | some entry, _ => (none, (d.erase tmp).put dest entry)

/-- `Backup` -/
def backup (a : Answers) (dest : List Char) (disk : Option Dir) : Option String × Option Dir :=
  if dest = [] then (some "backup dest path is empty", disk)
  else
    match a.mkdirAll with
    | some text => (some ("failed to create backup dir: " ++ text), disk)
    | none =>
      let tmp := dest ++ ".tmp".toList
      let d₁ := (osRemove (a.remove tmp) tmp (disk.getD Table.empty)).2
      let d₂ := (osRemove (a.remove (tmp ++ "-wal".toList)) (tmp ++ "-wal".toList) d₁).2
      let d₃ := (osRemove (a.remove (tmp ++ "-shm".toList)) (tmp ++ "-shm".toList) d₂).2
      match vacuumInto a tmp d₃ with
      | (some text, d) => (some ("VACUUM INTO: " ++ text), some (osRemove a.cleanup tmp d).2)
      | (none, d) =>
        match osRename a tmp dest d with
        | (some text, d) => (some ("rename backup: " ++ text), some (osRemove a.cleanup tmp d).2)
        | (none, d) => (none, some d)

/-! ## The run -/

/-- `log.Printf` -/
inductive Line where
  /-- `DB backup written` -/
  | written (dest : List Char)
  /-- `DB backup pruned` -/
  | pruned (name : List Char)

/-- What a run leaves. -/
structure Ran where
  err : Option String
  disk : Option Dir
  log : List Line

/-- A file of the schedule, by its name. -/
def isBackup (schedule : Schedule) (r : List Char × Entry) : Bool :=
  !r.2.isDir && (namePrefix schedule).isPrefixOf r.1 && ".db".toList.isSuffixOf r.1

/-- The files that `prune` finds, sorted. -/
def files (schedule : Schedule) (d : Dir) : List (List Char) :=
  ((d.rows.filter (isBackup schedule)).map Prod.fst).insertionSort (· ≤ ·)

/-- The loop of `prune`. -/
def pruneLoop (a : Answers) (keep : Nat) (current : List Char) : List (List Char) → Dir → Ran
  | [], d => ⟨none, some d, []⟩
  | oldest :: rest, d =>
    if keep < (oldest :: rest).length then
      if oldest = current then pruneLoop a keep current rest d
      else
        match osRemove (a.remove oldest) oldest d with
        | (some (.other text), d) => ⟨some text, some d, []⟩
        | (_, d) =>
          let ran := pruneLoop a keep current rest d
          ⟨ran.err, ran.disk, .pruned oldest :: ran.log⟩
    else ⟨none, some d, []⟩

/-- `prune` -/
def prune (schedule : Schedule) (now : Time) (a : Answers) (disk : Option Dir) : Ran :=
  if backupRetention schedule = 0 then ⟨none, disk, []⟩
  else
    match a.readDir, disk with
    | some text, _ => ⟨some text, disk, []⟩
    | none, none => ⟨none, none, []⟩
    | none, some d =>
      pruneLoop a (backupRetention schedule) (backupFileName schedule now) (files schedule d) d

/-- `runIfDue` -/
def runIfDue (schedule : Schedule) (now : Time) (a : Answers) (disk : Option Dir) : Ran :=
  if schedule = .disable then ⟨none, disk, []⟩
  else
    let dest := backupFileName schedule now
    match a.stat, (disk.getD Table.empty).get dest with
    | some text, _ => ⟨some text, disk, []⟩
    | none, some _ => ⟨none, disk, []⟩
    | none, none =>
      match backup a dest disk with
      | (some text, disk) => ⟨some text, disk, []⟩
      | (none, disk) =>
        let ran := prune schedule now a disk
        ⟨ran.err, ran.disk, .written dest :: ran.log⟩

/-! ## One operation on the directory -/

/-- The files that a snapshot is made with. -/
def temporaries (dest : List Char) : List (List Char) :=
  [dest ++ ".tmp".toList, dest ++ ".tmp".toList ++ "-wal".toList, dest ++ ".tmp".toList ++ "-shm".toList]

section Operations

variable {a : Answers} {answer : Option String} {name x tmp dest : List Char} {d d' : Dir}
  {disk disk' : Option Dir}

/-- A removal leaves the other entries. -/
theorem get_osRemove_ne (h : x ≠ name) : (osRemove answer name d).2.get x = d.get x := by
  unfold osRemove
  split
  · rfl
  · split
    · rfl
    · rfl
    · exact KeyMap.get_erase_ne h

/-- After a removal without an error, or with the one that is ignored, the entry is gone. -/
theorem get_osRemove (h : ∀ text, (osRemove answer name d).1 ≠ some (.other text)) :
    (osRemove answer name d).2.get name = none := by
  revert h
  unfold osRemove
  split
  · exact fun h => absurd rfl (h _)
  · split
    · rename_i hget
      exact fun _ => hget
    · exact fun h => absurd rfl (h _)
    · exact fun _ => KeyMap.get_erase

/-- A snapshot that is written is in the temporary file, and nowhere else. -/
theorem vacuumInto_ok (h : vacuumInto a tmp d = (none, d')) : ∃ content, a.vacuum = .ok content ∧
    d'.get tmp = some (.file content) ∧ ∀ x, x ≠ tmp → d'.get x = d.get x := by
  unfold vacuumInto at h
  split at h
  · cases h
  · cases h
  · rename_i content hcontent
    split at h
    · obtain rfl := (Prod.mk.inj h).2
      exact ⟨content, hcontent, KeyMap.get_put, fun x hx => KeyMap.get_put_ne hx⟩
    · obtain rfl := (Prod.mk.inj h).2
      exact ⟨content, hcontent, KeyMap.get_put, fun x hx => KeyMap.get_put_ne hx⟩
    · cases h

/-- A rename without an error moves the entry. -/
theorem osRename_ok (h : osRename a tmp dest d = (none, d')) :
    d'.get dest = d.get tmp ∧ ∀ x, x ≠ tmp → x ≠ dest → d'.get x = d.get x := by
  unfold osRename at h
  split at h
  · cases h
  · split at h
    · cases h
    · cases h
    · rename_i entry hentry _
      obtain rfl := (Prod.mk.inj h).2
      refine ⟨KeyMap.get_put.trans hentry.symm, fun x htmp hdest => ?_⟩
      rw [KeyMap.get_put_ne hdest, KeyMap.get_erase_ne htmp]

/-- **A snapshot without an error**: it is under its name, and no entry that is not one of its own
has changed. -/
theorem backup_ok (h : backup a dest disk = (none, disk')) : ∃ d content, disk' = some d ∧
    a.vacuum = .ok content ∧ d.get dest = some (.file content) ∧
    ∀ x, x ≠ dest → x ∉ temporaries dest → d.get x = (disk.getD Table.empty).get x := by
  unfold backup at h
  split at h
  · cases h
  split at h
  · cases h
  dsimp only at h
  split at h
  · cases h
  rename_i d₄ hvacuum
  split at h
  · cases h
  rename_i d₅ hrename
  obtain rfl := (Prod.mk.inj h).2
  obtain ⟨content, hcontent, hwritten, hother⟩ := vacuumInto_ok hvacuum
  obtain ⟨hmoved, hrest⟩ := osRename_ok hrename
  refine ⟨d₅, content, rfl, hcontent, hmoved.trans hwritten, fun x hdest hx => ?_⟩
  rw [temporaries, List.mem_cons, List.mem_cons, List.mem_singleton, not_or, not_or] at hx
  obtain ⟨hx₁, hx₂, hx₃⟩ := hx
  -- back through the rename, the snapshot and the three removals
  rw [hrest x hx₁ hdest, hother x hx₁, get_osRemove_ne hx₃, get_osRemove_ne hx₂, get_osRemove_ne hx₁]

end Operations

/-! ## The files of a schedule -/

section Files

variable {schedule : Schedule} {t : Time} {d : Dir} {x : List Char} {content : String}

theorem mem_files : x ∈ files schedule d ↔ ∃ e, d.get x = some e ∧ isBackup schedule (x, e) = true := by
  rw [files, List.mem_insertionSort, List.mem_map]
  constructor
  · rintro ⟨⟨name, e⟩, hmem, rfl⟩
    obtain ⟨hrow, hbackup⟩ := List.mem_filter.mp hmem
    exact ⟨e, KeyMap.get_eq_some_iff.mpr hrow, hbackup⟩
  · rintro ⟨e, hget, hbackup⟩
    exact ⟨(x, e), List.mem_filter.mpr ⟨KeyMap.get_eq_some_iff.mp hget, hbackup⟩, rfl⟩

theorem pairwise_files (schedule : Schedule) (d : Dir) : (files schedule d).Pairwise (· < ·) := by
  have hnodup : (files schedule d).Nodup := by
    rw [files, (List.perm_insertionSort _ _).nodup_iff]
    exact d.nodup.sublist (List.filter_sublist.map Prod.fst)
  have hsorted : (files schedule d).Pairwise (· ≤ ·) := List.pairwise_insertionSort _ _
  exact hsorted.imp₂ (fun _ _ hle hne => lt_of_le_of_ne hle hne) hnodup

/-- A snapshot is one of the files of its schedule. -/
theorem isBackup_backupFileName :
    isBackup schedule (backupFileName schedule t, .file content) = true := by
  have hpre : namePrefix schedule <+: backupFileName schedule t := List.prefix_append _ _
  have hsuf : ".db".toList <:+ backupFileName schedule t := by
    rw [backupFileName, ← List.append_assoc]
    exact List.suffix_append _ _
  rw [isBackup, List.isPrefixOf_iff_prefix.mpr hpre, List.isSuffixOf_iff_suffix.mpr hsuf]
  rfl

/-- The files it is made with are not. -/
theorem not_isBackup_of_temporary {dest : List Char} {e : Entry} (h : x ∈ temporaries dest) :
    isBackup schedule (x, e) = false := by
  have hlast : ∀ c, x.getLast? = some c → c ≠ 'b' → isBackup schedule (x, e) = false := by
    intro c hc hne
    rw [isBackup, Bool.and_eq_false_iff]
    refine .inr (Bool.eq_false_iff.mpr fun hsuf => hne ?_)
    obtain ⟨front, rfl⟩ := List.isSuffixOf_iff_suffix.mp hsuf
    have hb : (front ++ ".db".toList).getLast? = some 'b' := by
      rw [List.getLast?_append]
      rfl
    exact Option.some.inj (hc.symm.trans hb)
  rw [temporaries, List.mem_cons, List.mem_cons, List.mem_singleton] at h
  rcases h with rfl | rfl | rfl
  · exact hlast 'p' (by rw [List.getLast?_append]; rfl) (by decide)
  · exact hlast 'l' (by rw [List.getLast?_append]; rfl) (by decide)
  · exact hlast 'm' (by rw [List.getLast?_append]; rfl) (by decide)

end Files

/-! ## The run -/

section Run

variable {a : Answers} {keep : Nat} {current x : List Char} {d : Dir}

/-- One turn of the loop that removes a file. -/
theorem pruneLoop_remove {oldest : List Char} {rest : List (List Char)}
    (hlt : keep < (oldest :: rest).length) (hcurrent : oldest ≠ current)
    (h : (pruneLoop a keep current (oldest :: rest) d).err = none) :
    ∃ d₁ : Dir, d₁.get oldest = none ∧ (∀ x, x ≠ oldest → d₁.get x = d.get x) ∧
      (pruneLoop a keep current rest d₁).err = none ∧
      (pruneLoop a keep current (oldest :: rest) d).disk = (pruneLoop a keep current rest d₁).disk := by
  have hgone := @get_osRemove (a.remove oldest) oldest d
  have hsame := fun x hx => @get_osRemove_ne (a.remove oldest) oldest x d hx
  rw [pruneLoop, if_pos hlt, if_neg hcurrent] at h ⊢
  generalize osRemove (a.remove oldest) oldest d = removed at hgone hsame h ⊢
  obtain ⟨err, d₁⟩ := removed
  cases err with
  | none => exact ⟨d₁, hgone (fun _ herr => by cases herr), hsame, h, rfl⟩
  | some err =>
    cases err with
    | notExist => exact ⟨d₁, hgone (fun _ herr => by cases herr), hsame, h, rfl⟩
    | other text => cases h

/-- **The loop, if it has no error**, removes all but the last of the files, and the current one
stays. By induction on the files. -/
theorem pruneLoop_ok {l : List (List Char)} (h : (pruneLoop a keep current l d).err = none) :
    ∃ d', (pruneLoop a keep current l d).disk = some d' ∧
      (∀ x, x ∈ l.take (l.length - keep) → x ≠ current → d'.get x = none) ∧
      ∀ x, x ∉ l.take (l.length - keep) ∨ x = current → d'.get x = d.get x := by
  induction l generalizing d with
  | nil =>
    refine ⟨d, rfl, fun x hx => ?_, fun _ _ => rfl⟩
    rw [List.take_nil] at hx
    exact absurd hx List.not_mem_nil
  | cons oldest rest ih =>
    by_cases hlt : keep < (oldest :: rest).length
    · have htake : (oldest :: rest).take ((oldest :: rest).length - keep) =
          oldest :: rest.take (rest.length - keep) := by
        rw [List.length_cons, Nat.succ_sub (Nat.le_of_lt_succ hlt), List.take_succ_cons]
      rw [htake]
      by_cases hcurrent : oldest = current
      · rw [pruneLoop, if_pos hlt, if_pos hcurrent] at h ⊢
        obtain ⟨d', hdisk, hgone, hstays⟩ := ih h
        refine ⟨d', hdisk, fun x hx hne => ?_, fun x hx => ?_⟩
        · rcases List.mem_cons.mp hx with rfl | hx
          · exact absurd hcurrent hne
          · exact hgone x hx hne
        · exact hstays x (hx.imp_left fun hnot hmem => hnot (List.mem_cons_of_mem _ hmem))
      · obtain ⟨d₁, hoff, hsame, hrest, hdisk₁⟩ := pruneLoop_remove hlt hcurrent h
        obtain ⟨d', hdisk, hgone, hstays⟩ := ih hrest
        refine ⟨d', hdisk₁.trans hdisk, fun x hx hne => ?_, fun x hx => ?_⟩
        · by_cases hmem : x ∈ rest.take (rest.length - keep)
          · exact hgone x hmem hne
          · obtain rfl := (List.mem_cons.mp hx).resolve_right hmem
            rw [hstays x (.inl hmem), hoff]
        · have hne : x ≠ oldest := by
            rintro rfl
            exact hx.elim (fun hnot => hnot List.mem_cons_self) hcurrent
          rw [hstays x (hx.imp_left fun hnot hmem => hnot (List.mem_cons_of_mem _ hmem)), hsame x hne]
    · have htake : (oldest :: rest).take ((oldest :: rest).length - keep) = [] := by
        rw [Nat.sub_eq_zero_of_le (Nat.le_of_not_lt hlt), List.take_zero]
      rw [pruneLoop, if_neg hlt, htake]
      exact ⟨d, rfl, fun x hx => absurd hx List.not_mem_nil, fun _ _ => rfl⟩

end Run

/-! ## What a schedule promises -/

/-- The period of a time, in UTC: its day, its week from Monday to Sunday, or its month. -/
def period (schedule : Schedule) (t : Time) : Nat :=
  match schedule with
  | .daily => t.day
  | .weekly => t.day / 7
  | .monthly => 12 * yearOf t.day + monthOf t.day
  | .disable => 0

/-- The years that have four digits. -/
def InRange (t : Time) : Prop := t.day < yearStart 10000

/-- The names of a schedule's files. -/
def backups (schedule : Schedule) (d : Dir) : Finset (List Char) := (files schedule d).toFinset

/-- **What a run makes of the directory**, when it writes the snapshot `content` as `current`. -/
structure Rotated (schedule : Schedule) (current : List Char) (content : String) (before after : Dir) :
    Prop where
  /-- there are the newest ones, and the current one -/
  kept : backups schedule after =
    newest (backupRetention schedule) (insert current (backups schedule before)) ∪ {current}
  /-- the current one is the snapshot -/
  written : after.get current = some (.file content)
  /-- the older ones that are left have not changed -/
  same : ∀ x ∈ backups schedule after, x ≠ current → after.get x = before.get x
  /-- nor has what is not of the schedule, other than the snapshot's own files -/
  untouched : ∀ x, x ≠ current → x ∉ backups schedule before → x ∉ temporaries current →
    after.get x = before.get x

/-- A run of some schedule at some time. -/
structure Step where
  schedule : Schedule
  now : Time
  answers : Answers

/-- The directory after some runs. -/
def runs (disk : Option Dir) (steps : List Step) : Option Dir :=
  steps.foldl (fun disk step => (runIfDue step.schedule step.now step.answers disk).disk) disk

/-- **What a schedule promises.** -/
structure Rotates (schedule : Schedule) : Prop where
  /-- whatever has been run before, a run that writes a snapshot without an error rotates -/
  rotated : ∀ (disk : Option Dir) (steps : List Step) (now : Time) (a : Answers),
    (runIfDue schedule now a (runs disk steps)).err = none →
    .written (backupFileName schedule now) ∈ (runIfDue schedule now a (runs disk steps)).log →
    ∃ after content, (runIfDue schedule now a (runs disk steps)).disk = some after ∧
      a.vacuum = .ok content ∧
      Rotated schedule (backupFileName schedule now) content ((runs disk steps).getD Table.empty) after
  /-- names are in the order of their periods -/
  order : ∀ t t', InRange t → InRange t' →
    (backupFileName schedule t < backupFileName schedule t' ↔ period schedule t < period schedule t')
  /-- a name is that of one period -/
  name : ∀ t t', InRange t → InRange t' →
    (backupFileName schedule t = backupFileName schedule t' ↔ period schedule t = period schedule t')

section Rotates

variable {schedule : Schedule} {now t t' : Time} {a : Answers} {disk : Option Dir} {d after : Dir}
  {x current : List Char} {content : String}

theorem mem_backups : x ∈ backups schedule d ↔ ∃ e, d.get x = some e ∧ isBackup schedule (x, e) = true :=
  List.mem_toFinset.trans mem_files

/-- Before the others are pruned. -/
theorem backups_written (hcurrent : current = backupFileName schedule now)
    (hwritten : d.get current = some (.file content)) (hother : ∀ x, x ≠ current →
      x ∉ temporaries current → d.get x = (disk.getD Table.empty).get x) :
    backups schedule d = insert current (backups schedule (disk.getD Table.empty)) := by
  ext x
  rw [Finset.mem_insert, mem_backups, mem_backups]
  by_cases hx : x = current
  · refine iff_of_true ⟨.file content, hx ▸ hwritten, ?_⟩ (.inl hx)
    rw [hx, hcurrent]
    exact isBackup_backupFileName
  by_cases htmp : x ∈ temporaries current
  · refine iff_of_false ?_ ?_
    · rintro ⟨e, -, hbackup⟩
      exact Bool.false_ne_true ((not_isBackup_of_temporary htmp).symm.trans hbackup)
    · rintro (heq | ⟨e, -, hbackup⟩)
      · exact hx heq
      · exact Bool.false_ne_true ((not_isBackup_of_temporary htmp).symm.trans hbackup)
  · rw [hother x hx htmp]
    exact ⟨.inr, fun h => h.resolve_left hx⟩

/-- Pruning, if it has no error. -/
theorem prune_ok (hs : schedule ≠ .disable) (h : (prune schedule now a (some d)).err = none)
    (hcurrent : backupFileName schedule now ∈ backups schedule d) :
    ∃ after, (prune schedule now a (some d)).disk = some after ∧
      backups schedule after =
        newest (backupRetention schedule) (backups schedule d) ∪ {backupFileName schedule now} ∧
      ∀ x, x ∈ backups schedule after ∨ x ∉ backups schedule d → after.get x = d.get x := by
  have hkeep : backupRetention schedule ≠ 0 := by
    cases schedule with
    | disable => exact absurd rfl hs
    | _ => exact Nat.succ_ne_zero _
  unfold prune at h ⊢
  rw [if_neg hkeep] at h ⊢
  cases hdir : a.readDir with
  | some text =>
    rw [hdir] at h
    cases h
  | none =>
    rw [hdir] at h
    show ∃ after, (pruneLoop _ _ _ _ _).disk = some after ∧ _
    obtain ⟨after, hdisk, hgone, hstays⟩ := pruneLoop_ok h
    set keep := backupRetention schedule
    set current := backupFileName schedule now
    set front := (files schedule d).take ((files schedule d).length - keep) with hfront
    have hsplit : ∀ x, x ∈ backups schedule d ↔ x ∈ front ∨ x ∈ newest keep (backups schedule d) := by
      intro x
      rw [backups, ← mem_drop_iff (pairwise_files schedule d) keep, ← List.mem_append,
        List.take_append_drop, List.mem_toFinset]
    have hapart : ∀ x ∈ front, x ∉ newest keep (backups schedule d) := by
      intro x hx hnew
      rw [backups, ← mem_drop_iff (pairwise_files schedule d) keep] at hnew
      have hpair := pairwise_files schedule d
      rw [← List.take_append_drop ((files schedule d).length - keep) (files schedule d)] at hpair
      exact lt_irrefl x ((List.pairwise_append.mp hpair).2.2 x hx x hnew)
    refine ⟨after, hdisk, ?_, fun x hx => ?_⟩
    · ext x
      rw [Finset.mem_union, Finset.mem_singleton]
      by_cases hx : x ∈ front ∧ x ≠ current
      · refine iff_of_false (fun hmem => ?_) ?_
        · obtain ⟨e, hget, -⟩ := mem_backups.mp hmem
          rw [hgone x hx.1 hx.2] at hget
          cases hget
        · rintro (hnew | heq)
          · exact hapart x hx.1 hnew
          · exact hx.2 heq
      · have hsame : after.get x = d.get x := by
          refine hstays x ?_
          by_cases heq : x = current
          · exact .inr heq
          · exact .inl fun hmem => hx ⟨hmem, heq⟩
        rw [mem_backups, hsame, ← mem_backups]
        constructor
        · intro hmem
          by_cases heq : x = current
          · exact .inr heq
          · exact .inl (((hsplit x).mp hmem).resolve_left fun hmem => hx ⟨hmem, heq⟩)
        · rintro (hnew | rfl)
          · exact (hsplit x).mpr (.inr hnew)
          · exact hcurrent
    · by_cases heq : x = current
      · exact hstays x (.inr heq)
      refine hstays x (.inl fun hmem => ?_)
      rcases hx with hafter | hnot
      · obtain ⟨e, hget, -⟩ := mem_backups.mp hafter
        rw [hgone x hmem heq] at hget
        cases hget
      · exact hnot ((hsplit x).mpr (.inl hmem))

/-- **A run that writes a snapshot without an error** rotates, from any directory. -/
theorem runIfDue_ok (h : (runIfDue schedule now a disk).err = none)
    (hlog : .written (backupFileName schedule now) ∈ (runIfDue schedule now a disk).log) :
    ∃ after content, (runIfDue schedule now a disk).disk = some after ∧ a.vacuum = .ok content ∧
      Rotated schedule (backupFileName schedule now) content (disk.getD Table.empty) after := by
  unfold runIfDue at h hlog ⊢
  by_cases hs : schedule = .disable
  · rw [if_pos hs] at hlog
    exact absurd hlog List.not_mem_nil
  rw [if_neg hs] at h hlog ⊢
  dsimp only at h hlog ⊢
  cases hstat : a.stat with
  | some text =>
    rw [hstat] at h
    cases h
  | none =>
    cases hget : (disk.getD Table.empty).get (backupFileName schedule now) with
    | some entry =>
      rw [hstat, hget] at hlog
      exact absurd hlog List.not_mem_nil
    | none =>
      rw [hstat, hget] at h
      obtain ⟨err, disk', hbackup⟩ :
          ∃ err disk', backup a (backupFileName schedule now) disk = (err, disk') :=
        ⟨_, _, rfl⟩
      rw [hbackup] at h ⊢
      cases err with
      | some text => cases h
      | none =>
        obtain ⟨d, content, rfl, hvacuum, hwritten, hother⟩ := backup_ok hbackup
        have hinsert := backups_written rfl hwritten hother
        obtain ⟨after, hdisk, hkept, hsame⟩ := prune_ok hs h (hinsert ▸ Finset.mem_insert_self _ _)
        refine ⟨after, content, hdisk, hvacuum, ?_, ?_, fun x hx hne => ?_, fun x hne hx htmp => ?_⟩
        · rw [hkept, hinsert]
        · have hmem : backupFileName schedule now ∈ backups schedule after := by
            rw [hkept]
            exact Finset.mem_union_right _ (Finset.mem_singleton_self _)
          rw [hsame _ (.inl hmem), hwritten]
        · have htmp : x ∉ temporaries (backupFileName schedule now) := by
            intro htmp
            obtain ⟨e, -, hbackup⟩ := mem_backups.mp hx
            exact Bool.false_ne_true ((not_isBackup_of_temporary htmp).symm.trans hbackup)
          rw [hsame x (.inl hx), hother x hne htmp]
        · have hnot : x ∉ backups schedule d := by
            rw [hinsert, Finset.mem_insert, not_or]
            exact ⟨hne, hx⟩
          rw [hsame x (.inr hnot), hother x hne htmp]

/-! ## Names in the order of time -/

theorem yearOf_lt (h : InRange t) : yearOf t.day < 10 ^ 4 :=
  yearOf_lt_iff.mpr h

theorem isoYear_lt (h : InRange t) : isoYear t.day < 10 ^ 4 := by
  have hstart : yearStart 10000 = 3652059 := rfl
  rw [InRange, hstart] at h
  refine yearOf_lt_iff.mpr (?_ : thursday t.day < yearStart 10000)
  rw [hstart, thursday]
  omega

theorem monthOf_lt (t : Time) : monthOf t.day < 10 ^ 2 :=
  Nat.lt_of_le_of_lt (monthOf_le t.day) (by decide)

/-- A name that begins with a smaller year, or else goes on with a smaller number, comes first. -/
theorem stamp_lt {year year' n n' : Nat} (sep : List Char) {rest rest' : List Char}
    (hyear : year < 10 ^ 4) (hyear' : year' < 10 ^ 4) (hn : n < 10 ^ 2) (hn' : n' < 10 ^ 2)
    (h : year < year' ∨ year = year' ∧ (n < n' ∨ n = n' ∧ rest < rest')) :
    pad 4 year ++ (sep ++ (pad 2 n ++ rest)) < pad 4 year' ++ (sep ++ (pad 2 n' ++ rest')) := by
  rw [pad_append_lt_iff (by decide) hyear hyear', append_lt_append_iff,
    pad_append_lt_iff (by decide) hn hn']
  exact h

theorem daily_eq (tail : List Char) : backupPeriodKey .daily t ++ tail = pad 4 (yearOf t.day) ++
    (['-'] ++ (pad 2 (monthOf t.day) ++ (['-'] ++ (pad 2 (monthDay t.day) ++ tail)))) := by
  rw [backupPeriodKey]
  simp only [List.append_assoc, List.cons_append, List.nil_append]

theorem weekly_eq (tail : List Char) : backupPeriodKey .weekly t ++ tail =
    pad 4 (isoYear t.day) ++ (['-', 'W'] ++ (pad 2 (isoWeek t.day) ++ tail)) := by
  rw [backupPeriodKey]
  simp only [List.append_assoc, List.cons_append, List.nil_append]

theorem monthly_eq (tail : List Char) : backupPeriodKey .monthly t ++ tail =
    pad 4 (yearOf t.day) ++ (['-'] ++ (pad 2 (monthOf t.day) ++ tail)) := by
  rw [backupPeriodKey]
  simp only [List.append_assoc, List.cons_append, List.nil_append]

/-- A later period has the greater name. -/
theorem name_lt (ht : InRange t) (ht' : InRange t') (h : period schedule t < period schedule t') :
    backupFileName schedule t < backupFileName schedule t' := by
  refine append_lt_append_iff.mpr ?_
  cases schedule with
  | disable => exact absurd h (Nat.lt_irrefl 0)
  | daily =>
    have hday : monthDay t.day < 10 ^ 2 := Nat.lt_of_le_of_lt (monthDay_le t.day) (by decide)
    have hday' : monthDay t'.day < 10 ^ 2 := Nat.lt_of_le_of_lt (monthDay_le t'.day) (by decide)
    rw [daily_eq, daily_eq]
    refine stamp_lt ['-'] (yearOf_lt ht) (yearOf_lt ht') (monthOf_lt t) (monthOf_lt t') ?_
    refine (date_lt h).imp_right fun ⟨hyear, hrest⟩ => ⟨hyear, hrest.imp_right fun ⟨hmonth, hlt⟩ => ?_⟩
    refine ⟨hmonth, append_lt_append_iff.mpr ?_⟩
    exact (pad_append_lt_iff (by decide) hday hday').mpr (.inl hlt)
  | weekly =>
    have hweek : isoWeek t.day < 10 ^ 2 := Nat.lt_of_le_of_lt (isoWeek_le t.day) (by decide)
    have hweek' : isoWeek t'.day < 10 ^ 2 := Nat.lt_of_le_of_lt (isoWeek_le t'.day) (by decide)
    rw [weekly_eq, weekly_eq]
    refine stamp_lt ['-', 'W'] (isoYear_lt ht) (isoYear_lt ht') hweek hweek' ?_
    exact (week_lt h).imp_right fun ⟨hyear, hlt⟩ => ⟨hyear, .inl hlt⟩
  | monthly =>
    have hpos := monthOf_pos t'.day
    have hle := monthOf_le t.day
    have hle' := monthOf_le t'.day
    have hpos' := monthOf_pos t.day
    rw [period, period] at h
    rw [monthly_eq, monthly_eq]
    refine stamp_lt ['-'] (yearOf_lt ht) (yearOf_lt ht') (monthOf_lt t) (monthOf_lt t') ?_
    omega

/-- A period has one name. -/
theorem name_eq (h : period schedule t = period schedule t') :
    backupFileName schedule t = backupFileName schedule t' := by
  have hkey : backupPeriodKey schedule t = backupPeriodKey schedule t' := by
    cases schedule with
    | disable => rfl
    | daily =>
      have hday : t.day = t'.day := h
      rw [backupPeriodKey, backupPeriodKey, hday]
    | weekly =>
      obtain ⟨hyear, hweek⟩ := week_eq h
      rw [backupPeriodKey, backupPeriodKey, hyear, hweek]
    | monthly =>
      have hpos := monthOf_pos t.day
      have hpos' := monthOf_pos t'.day
      have hle := monthOf_le t.day
      have hle' := monthOf_le t'.day
      rw [period, period] at h
      have hyear : yearOf t.day = yearOf t'.day := by omega
      have hmonth : monthOf t.day = monthOf t'.day := by omega
      rw [backupPeriodKey, backupPeriodKey, hyear, hmonth]
  rw [backupFileName, backupFileName, hkey]

/-- **Names are in the order of their periods**, and none is that of two. -/
theorem names_iff (ht : InRange t) (ht' : InRange t') :
    (backupFileName schedule t < backupFileName schedule t' ↔ period schedule t < period schedule t') ∧
    (backupFileName schedule t = backupFileName schedule t' ↔ period schedule t = period schedule t') := by
  rcases lt_trichotomy (period schedule t) (period schedule t') with hlt | heq | hgt
  · have hname := name_lt ht ht' hlt
    exact ⟨iff_of_true hname hlt, iff_of_false hname.ne hlt.ne⟩
  · have hname := name_eq heq
    exact ⟨iff_of_false hname.not_lt heq.not_lt, iff_of_true hname heq⟩
  · have hname := name_lt ht' ht hgt
    exact ⟨iff_of_false hname.not_gt hgt.not_gt, iff_of_false hname.ne' hgt.ne'⟩

/-- **Each schedule keeps its promise.** -/
theorem rotates (schedule : Schedule) : Rotates schedule where
  rotated _ _ _ _ herr hlog := runIfDue_ok herr hlog
  order _ _ ht ht' := (names_iff ht ht').1
  name _ _ ht ht' := (names_iff ht ht').2

example : (runIfDue .monthly 0 ⟨none, none, .ok "rows", none, none, none, fun _ => none⟩ none).disk.map
    (fun d => d.rows.map Prod.fst) = some ["e2Mail.monthly.0001-01.db".toList] := by
  decide

end Rotates

end E2Mail.Backend.Snapshots
