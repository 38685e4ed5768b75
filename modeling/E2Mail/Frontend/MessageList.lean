import E2Mail.Imap.ThreadList

/-!
# Bulk operations of the message list

The message list lets the user select messages and then deletes, moves or flags what
is selected. The selection is a list of UIDs, also where the list shows messages of
several folders (the unread view) or threads.

* `View`, `folderByUID`, `groupUidsByFolder`, `bulkMutation` — from a selection to the
  requests, one for each folder;
* `UnreadList` — the messages of the unread view, told apart by folder and UID;
* `Gesture`, `ThreadGesture` — how the user selects;
* `bulk_unread_iff` — when an operation on the unread view acts on what was selected;
* `bulk_threads_iff` — when an operation on threads acts on their members.
-/

namespace E2Mail.Frontend

open Lib Imap

/-! ## The view -/

/-- A message in the list. -/
structure ListMessage where
  /-- `uid` -/
  uid : Nat
  /-- `folder`, in the unread view; empty if it is missing -/
  folder : String
  deriving DecidableEq, Repr

/-- What the operations take from the view. -/
structure View where
  /-- `isUnreadView` -/
  isUnreadView : Bool
  /-- `currentFolder` -/
  currentFolder : String
  /-- a folder is open -/
  currentFolder_ne : currentFolder ≠ ""
  /-- `data.messages` -/
  messages : List ListMessage

/-- `folderByUID`: the last message with a UID counts. -/
def folderByUID (messages : List ListMessage) : Nat → Option String :=
  messages.foldl
    (fun map m => if m.uid ≠ 0 ∧ m.folder ≠ "" then Function.update map m.uid (some m.folder) else map)
    fun _ => none

/-- `folderForUID`. -/
def folderForUID (v : View) (uid : Nat) : String :=
  if v.isUnreadView then (folderByUID v.messages uid).getD v.currentFolder
  else v.currentFolder

/-- One round of `groupUidsByFolder`: the UID goes to the group of its folder. -/
def addToGroup (folder : String) (uid : Nat) : List (String × List Nat) → List (String × List Nat)
  | [] => [(folder, [uid])]
  | (f, uids) :: groups =>
    if f = folder then (f, uids ++ [uid]) :: groups
    else (f, uids) :: addToGroup folder uid groups

/-- `groupUidsByFolder`. -/
def groupUidsByFolder (v : View) (uids : List Nat) : List (String × List Nat) :=
  uids.foldl
    (fun groups uid =>
      if folderForUID v uid = "" then groups else addToGroup (folderForUID v uid) uid groups) []

/-! ## Requests -/

/-- What is done with the selection. -/
inductive BulkAction
  /-- `deleteMutation` -/
  | delete
  /-- `moveMutation` -/
  | move (dest : String)
  /-- `flagMutation` -/
  | flag (flags : List String) (op : String)
  deriving DecidableEq, Repr

/-- A request to the backend. -/
structure BulkRequest where
  /-- the folder -/
  folder : String
  /-- the messages of the folder -/
  uids : List Nat
  /-- what is done with them -/
  action : BulkAction
  deriving DecidableEq, Repr

/-- `deleteMutation`, `moveMutation` and `flagMutation`: one request for each folder. -/
def bulkMutation (v : View) (action : BulkAction) (uids : List Nat) : List BulkRequest :=
  (groupUidsByFolder v uids).map fun g => ⟨g.1, g.2, action⟩

/-- The message of a folder is acted on. -/
def Touches (requests : List BulkRequest) (folder : String) (uid : Nat) : Prop :=
  ∃ r ∈ requests, r.folder = folder ∧ uid ∈ r.uids

section Requests

variable {v : View} {action : BulkAction} {uids : List Nat} {folder : String} {uid : Nat}

theorem mem_addToGroup {groups : List (String × List Nat)} {f : String} {u : Nat} :
    (∃ g ∈ addToGroup f u groups, g.1 = folder ∧ uid ∈ g.2) ↔
      (∃ g ∈ groups, g.1 = folder ∧ uid ∈ g.2) ∨ (f = folder ∧ u = uid) := by
  induction groups with
  | nil => simp [addToGroup, eq_comm]
  | cons g groups ih =>
    obtain ⟨f', us⟩ := g
    rw [addToGroup]
    by_cases hf : f' = f
    · subst hf
      rw [if_pos rfl]
      simp only [List.mem_cons, exists_eq_or_imp, List.mem_append]
      grind
    · rw [if_neg hf]
      simp only [List.mem_cons, exists_eq_or_imp, ih, or_assoc]

/-- **Acted on** are the UIDs selected, each in the folder it is looked up in. -/
theorem touches_bulkMutation : Touches (bulkMutation v action uids) folder uid ↔
    uid ∈ uids ∧ folderForUID v uid = folder ∧ folder ≠ "" := by
  have hfold : ∀ groups : List (String × List Nat),
      (∃ g ∈ uids.foldl (fun groups uid => if folderForUID v uid = "" then groups
          else addToGroup (folderForUID v uid) uid groups) groups, g.1 = folder ∧ uid ∈ g.2) ↔
      (∃ g ∈ groups, g.1 = folder ∧ uid ∈ g.2) ∨
        (uid ∈ uids ∧ folderForUID v uid = folder ∧ folder ≠ "") := by
    induction uids with
    | nil => simp
    | cons u uids ih =>
      intro groups
      rw [List.foldl_cons, ih]
      by_cases hempty : folderForUID v u = ""
      · rw [if_pos hempty]
        refine or_congr Iff.rfl ?_
        rw [List.mem_cons]
        refine ⟨fun h => ⟨.inr h.1, h.2⟩, ?_⟩
        rintro ⟨rfl | hmem, hf, hne⟩
        · exact absurd (hf ▸ hempty) hne
        · exact ⟨hmem, hf, hne⟩
      · rw [if_neg hempty, mem_addToGroup, List.mem_cons, or_assoc]
        refine or_congr Iff.rfl ⟨?_, ?_⟩
        · rintro (⟨hf, rfl⟩ | ⟨hmem, hf⟩)
          · exact ⟨.inl rfl, hf, hf ▸ hempty⟩
          · exact ⟨.inr hmem, hf⟩
        · rintro ⟨rfl | hmem, hf, hne⟩
          · exact .inl ⟨hf, rfl⟩
          · exact .inr ⟨hmem, hf, hne⟩
  have hmap : Touches (bulkMutation v action uids) folder uid ↔
      ∃ g ∈ groupUidsByFolder v uids, g.1 = folder ∧ uid ∈ g.2 := by
    simp [Touches, bulkMutation]
  rw [hmap, groupUidsByFolder, hfold]
  simp

end Requests

/-! ## The unread view -/

/-- The messages of the unread view: each of them in a folder and with a UID, and no two the
same message. -/
structure UnreadList where
  /-- the messages, in the order they are shown -/
  rows : Table fun m : ListMessage => (m.folder, m.uid)
  /-- each has a UID and a folder -/
  named : ∀ m ∈ rows.rows, m.uid ≠ 0 ∧ m.folder ≠ ""

/-- The messages that `FetchAllUnread` collects, folder by folder; a folder that cannot be
searched is left out. -/
def unreadMessages (fetch : String → Except String (List MessageSummary)) (folders : List String) :
    List ListMessage :=
  folders.flatMap fun f =>
    if trimSpace f = "" then []
    else
      match fetch f with
      | .error _ => []
      | .ok summaries => summaries.map fun s => ⟨s.uid, f⟩

theorem mem_unreadMessages {fetch : String → Except String (List MessageSummary)}
    {folders : List String} {m : ListMessage} : m ∈ unreadMessages fetch folders ↔
      m.folder ∈ folders ∧ trimSpace m.folder ≠ "" ∧
        ∃ summaries, fetch m.folder = .ok summaries ∧ m.uid ∈ summaries.map MessageSummary.uid := by
  rw [unreadMessages, List.mem_flatMap]
  refine ⟨?_, ?_⟩
  · rintro ⟨f, hf, hm⟩
    by_cases htrim : trimSpace f = ""
    · rw [if_pos htrim] at hm
      cases hm
    · rw [if_neg htrim] at hm
      cases hfetch : fetch f with
      | error e =>
        rw [hfetch] at hm
        cases hm
      | ok summaries =>
        rw [hfetch] at hm
        obtain ⟨s, hs, rfl⟩ := List.mem_map.mp hm
        exact ⟨hf, htrim, summaries, hfetch, List.mem_map_of_mem hs⟩
  · rintro ⟨hf, htrim, summaries, hfetch, huid⟩
    obtain ⟨s, hs, huid⟩ := List.mem_map.mp huid
    refine ⟨m.folder, hf, ?_⟩
    rw [if_neg htrim, hfetch]
    exact List.mem_map.mpr ⟨s, hs, by rw [huid]⟩

/-- No two of them are the same message. -/
theorem nodup_unreadMessages {fetch : String → Except String (List MessageSummary)}
    {folders : List String} (hfolders : folders.Nodup)
    (hfetch : ∀ f summaries, fetch f = .ok summaries → (summaries.map MessageSummary.uid).Nodup) :
    ((unreadMessages fetch folders).map fun m => (m.folder, m.uid)).Nodup := by
  induction folders with
  | nil => exact List.nodup_nil
  | cons f folders ih =>
    obtain ⟨hf, hfolders⟩ := List.nodup_cons.mp hfolders
    have hsplit : unreadMessages fetch (f :: folders) =
        unreadMessages fetch [f] ++ unreadMessages fetch folders := by
      simp [unreadMessages]
    rw [hsplit, List.map_append, List.nodup_append]
    refine ⟨?_, ih hfolders, ?_⟩
    · rw [unreadMessages, List.flatMap_singleton]
      by_cases htrim : trimSpace f = ""
      · rw [if_pos htrim]
        exact List.nodup_nil
      · rw [if_neg htrim]
        cases hf' : fetch f with
        | error e => exact List.nodup_nil
        | ok summaries =>
          rw [List.map_map]
          refine List.Nodup.of_map Prod.snd ?_
          rw [List.map_map]
          exact hfetch f summaries hf'
    · rintro _ hx _ hy rfl
      obtain ⟨m, hm, rfl⟩ := List.mem_map.mp hx
      obtain ⟨m', hm', heq⟩ := List.mem_map.mp hy
      have hmf := (mem_unreadMessages.mp hm).1
      have hmf' := (mem_unreadMessages.mp hm').1
      rw [(Prod.mk.inj heq).1, List.mem_singleton.mp hmf] at hmf'
      exact hf hmf'

/-- **A page** of the unread messages, in whatever order they were sorted. -/
def unreadList (fetch : String → Except String (List MessageSummary)) (folders : List String)
    (hfolders : folders.Nodup)
    (hfetch : ∀ f summaries, fetch f = .ok summaries →
      (summaries.map MessageSummary.uid).Nodup ∧ ∀ s ∈ summaries, s.uid ≠ 0)
    (order : List ListMessage) (horder : order.Perm (unreadMessages fetch folders))
    (start stop : Nat) : UnreadList where
  rows :=
    { rows := (order.drop start).take (stop - start)
      nodup := by
        have hnd := nodup_unreadMessages hfolders fun f summaries h => (hfetch f summaries h).1
        exact ((horder.map _).nodup_iff.mpr hnd).sublist
          (((List.take_sublist _ _).trans (List.drop_sublist _ _)).map _) }
  named := by
    intro m hm
    have hmem := horder.mem_iff.mp (List.mem_of_mem_drop (List.mem_of_mem_take hm))
    obtain ⟨-, htrim, summaries, hok, huid⟩ := mem_unreadMessages.mp hmem
    obtain ⟨s, hs, huid⟩ := List.mem_map.mp huid
    refine ⟨huid ▸ (hfetch _ _ hok).2 s hs, fun hempty => htrim ?_⟩
    rw [hempty]
    decide +kernel

/-- The view of the messages. -/
def UnreadList.view (l : UnreadList) (currentFolder : String) (h : currentFolder ≠ "") : View :=
  ⟨true, currentFolder, h, l.rows.rows⟩

/-- `toggleSelect`. -/
def toggleSelect (prev : List Nat) (uid : Nat) : List Nat :=
  if uid ∈ prev then prev.filter (· != uid) else prev ++ [uid]

/-- `selectUID`, and one round of a selection by Shift+click: nothing is taken out. -/
def selectUID (prev : List Nat) (uid : Nat) : List Nat :=
  if uid ∈ prev then prev else prev ++ [uid]

/-- What a click on a message means to the user. -/
def toggleMessage (prev : List ListMessage) (m : ListMessage) : List ListMessage :=
  if m ∈ prev then prev.filter (· != m) else prev ++ [m]

/-- How the user selects messages, from no selection. -/
inductive Gesture
  /-- a click on one message after the other; a second click takes the message out again -/
  | clicks (messages : List ListMessage)
  /-- a range, by Shift+click or by dragging over it -/
  | sweep (messages : List ListMessage)
  /-- `handleSelectAll` -/
  | all

/-- The messages that the user has chosen. -/
def Gesture.chosen (l : UnreadList) : Gesture → List ListMessage
  | .clicks messages => messages.foldl toggleMessage []
  | .sweep messages => messages
  | .all => l.rows.rows

/-- `selectedUIDs` afterwards. -/
def Gesture.selectedUIDs (l : UnreadList) : Gesture → List Nat
  | .clicks messages => messages.foldl (fun prev m => toggleSelect prev m.uid) []
  | .sweep messages => messages.foldl (fun prev m => selectUID prev m.uid) []
  | .all => l.rows.rows.map ListMessage.uid

/-- The messages chosen are messages of the list. -/
def Gesture.Valid (l : UnreadList) (g : Gesture) : Prop := ∀ m ∈ g.chosen l, m ∈ l.rows.rows

instance (l : UnreadList) (g : Gesture) : Decidable (g.Valid l) :=
  inferInstanceAs (Decidable (∀ m ∈ g.chosen l, m ∈ l.rows.rows))

/-- The last message of the list with a UID. -/
def lastWithUID (messages : List ListMessage) (uid : Nat) : Option ListMessage :=
  messages.reverse.find? fun m => m.uid == uid

section Unread

variable {l : UnreadList} {m : ListMessage} {uid : Nat}

/-- The folder looked up is that of the last message with the UID. -/
theorem folderByUID_eq {messages : List ListMessage}
    (h : ∀ m ∈ messages, m.uid ≠ 0 ∧ m.folder ≠ "") :
    folderByUID messages uid = (lastWithUID messages uid).map ListMessage.folder := by
  rw [folderByUID, lastWithUID]
  induction messages using List.reverseRecOn with
  | nil => rfl
  | append_singleton ms m ih =>
    have hm := h m (List.mem_append_right ms List.mem_cons_self)
    rw [List.foldl_append, List.foldl_cons, List.foldl_nil, if_pos hm, List.reverse_append,
      List.reverse_singleton, List.singleton_append, List.find?_cons]
    by_cases huid : m.uid = uid
    · simp [huid]
    · have hne : (m.uid == uid) = false := by simpa using huid
      rw [hne, Function.update_of_ne (Ne.symm huid)]
      exact ih fun m' hm' => h m' (List.mem_append_left _ hm')

theorem lastWithUID_of_mem (h : m ∈ l.rows.rows) :
    ∃ m', lastWithUID l.rows.rows m.uid = some m' ∧ m' ∈ l.rows.rows ∧ m'.uid = m.uid := by
  cases hlast : lastWithUID l.rows.rows m.uid with
  | none =>
    have hnone := List.find?_eq_none.mp hlast m (List.mem_reverse.mpr h)
    simp at hnone
  | some m' =>
    exact ⟨m', rfl, List.mem_reverse.mp (List.mem_of_find?_eq_some hlast),
      by simpa using List.find?_some hlast⟩

/-- A message is looked up in its own folder just if it is the last with its UID. -/
theorem folderForUID_eq_iff {currentFolder : String} {hcur : currentFolder ≠ ""}
    (h : m ∈ l.rows.rows) : folderForUID (l.view currentFolder hcur) m.uid = m.folder ↔
      lastWithUID l.rows.rows m.uid = some m := by
  obtain ⟨m', hlast, hm', huid⟩ := lastWithUID_of_mem h
  rw [folderForUID, UnreadList.view, if_pos rfl, folderByUID_eq l.named, hlast]
  simp only [Option.map_some, Option.getD_some, Option.some_inj]
  refine ⟨fun hf => ?_, fun hm => by rw [hm]⟩
  exact Table.eq_of_key hm' h (Prod.ext hf huid)

theorem mem_toggleSelect {prev : List Nat} {u : Nat} :
    uid ∈ toggleSelect prev u ↔ (uid ∈ prev ∧ uid ≠ u) ∨ (uid = u ∧ u ∉ prev) := by
  rw [toggleSelect]
  by_cases hu : u ∈ prev
  · simp [hu]
  · rw [if_neg hu, List.mem_append, List.mem_singleton]
    grind

/-- How many of the messages have the UID. -/
def countUID (messages : List ListMessage) (uid : Nat) : Nat :=
  messages.countP fun m => m.uid == uid

/-- A click takes one message in or out. -/
theorem countUID_toggleMessage {prev : List ListMessage} (hnd : prev.Nodup) :
    (toggleMessage prev m).Nodup ∧
      ∀ u, (countUID (toggleMessage prev m) u + countUID prev u) % 2 = if m.uid = u then 1 else 0 := by
  rw [toggleMessage]
  by_cases hm : m ∈ prev
  · rw [if_pos hm]
    refine ⟨hnd.filter _, fun u => ?_⟩
    have hperm := List.perm_cons_erase hm
    have hfilter : prev.filter (· != m) = prev.erase m :=
      (hnd.erase_eq_filter m).symm
    have hcount : countUID prev u = (if m.uid = u then 1 else 0) + countUID (prev.erase m) u := by
      rw [countUID, hperm.countP_eq, List.countP_cons, countUID]
      simp only [beq_iff_eq]
      omega
    rw [hfilter, hcount]
    split <;> omega
  · rw [if_neg hm]
    refine ⟨?_, fun u => ?_⟩
    · rw [← List.concat_eq_append]
      exact hnd.concat hm
    · rw [countUID, List.countP_append, List.countP_singleton, countUID]
      simp only [beq_iff_eq]
      split <;> omega

/-- **Clicks**: a UID is selected just if the messages chosen with it are odd in number. -/
theorem mem_selectedUIDs_clicks (messages : List ListMessage) :
    ((Gesture.clicks messages).chosen l).Nodup ∧
      ∀ u, u ∈ (Gesture.clicks messages).selectedUIDs l ↔
        countUID ((Gesture.clicks messages).chosen l) u % 2 = 1 := by
  simp only [Gesture.chosen, Gesture.selectedUIDs]
  induction messages using List.reverseRecOn with
  | nil => exact ⟨List.nodup_nil, fun u => by simp [countUID]⟩
  | append_singleton ms m ih =>
    obtain ⟨hnd, hmem⟩ := ih
    rw [List.foldl_append, List.foldl_cons, List.foldl_nil, List.foldl_append, List.foldl_cons,
      List.foldl_nil]
    obtain ⟨hnd', hcount⟩ := countUID_toggleMessage (m := m) hnd
    refine ⟨hnd', fun u => ?_⟩
    have hu := hmem u
    have hc := hcount u
    rw [mem_toggleSelect]
    by_cases heq : m.uid = u
    · subst heq
      rw [if_pos rfl] at hc
      simp only [ne_eq, not_true, and_false, false_or, true_and, hu]
      omega
    · rw [if_neg heq] at hc
      have hne : u ≠ m.uid := Ne.symm heq
      simp only [hne, ne_eq, not_false_eq_true, and_true, false_and, or_false, hu]
      omega

theorem mem_foldl_selectUID {messages : List ListMessage} {prev : List Nat} :
    uid ∈ messages.foldl (fun prev m => selectUID prev m.uid) prev ↔
      uid ∈ prev ∨ ∃ m ∈ messages, m.uid = uid := by
  induction messages generalizing prev with
  | nil => simp
  | cons m messages ih =>
    have hone : uid ∈ selectUID prev m.uid ↔ uid ∈ prev ∨ m.uid = uid := by
      rw [selectUID]
      by_cases hu : m.uid ∈ prev
      · rw [if_pos hu]
        refine ⟨.inl, ?_⟩
        rintro (h | rfl)
        · exact h
        · exact hu
      · simp [hu, eq_comm]
    rw [List.foldl_cons, ih, hone, or_assoc]
    simp

/-- Where each message chosen is the last with its UID, their UIDs are what is selected. -/
theorem mem_selectedUIDs {g : Gesture}
    (h : ∀ m ∈ g.chosen l, lastWithUID l.rows.rows m.uid = some m) :
    uid ∈ g.selectedUIDs l ↔ ∃ m ∈ g.chosen l, m.uid = uid := by
  cases g with
  | clicks messages =>
    obtain ⟨hnd, hmem⟩ := mem_selectedUIDs_clicks (l := l) messages
    -- no two of them have the same UID
    have hone : countUID ((Gesture.clicks messages).chosen l) uid ≤ 1 := by
      rw [countUID, List.countP_eq_length_filter]
      cases hf : ((Gesture.clicks messages).chosen l).filter (fun m => m.uid == uid) with
      | nil => exact Nat.zero_le 1
      | cons m rest =>
        cases rest with
        | nil => exact Nat.le_refl 1
        | cons m' rest =>
          have hin : ∀ x ∈ m :: m' :: rest, lastWithUID l.rows.rows uid = some x := by
            intro x hx
            rw [← hf] at hx
            obtain ⟨hx, huid⟩ := List.mem_filter.mp hx
            rw [← beq_iff_eq.mp huid]
            exact h x hx
          have hsame : m = m' := by
            have hm := hin m List.mem_cons_self
            rw [hin m' (by simp)] at hm
            exact (Option.some.inj hm).symm
          have hfnd := hnd.filter (fun m => m.uid == uid)
          rw [hf, hsame] at hfnd
          simp at hfnd
    have hpos : 0 < countUID ((Gesture.clicks messages).chosen l) uid ↔
        ∃ m ∈ (Gesture.clicks messages).chosen l, m.uid = uid := by
      rw [countUID, List.countP_pos_iff]
      simp only [beq_iff_eq]
    rw [hmem, ← hpos]
    omega
  | sweep messages =>
    rw [Gesture.selectedUIDs, mem_foldl_selectUID]
    simp [Gesture.chosen]
  | all => exact List.mem_map

/-- **The unread view.** An operation acts on exactly the messages chosen just if each of them
is the last of the list with its UID. -/
theorem bulk_unread_iff (currentFolder : String) (hcur : currentFolder ≠ "") (action : BulkAction)
    {g : Gesture} (hg : g.Valid l) :
    (∀ folder uid,
      Touches (bulkMutation (l.view currentFolder hcur) action (g.selectedUIDs l)) folder uid ↔
        ∃ m ∈ g.chosen l, m.folder = folder ∧ m.uid = uid) ↔
    ∀ m ∈ g.chosen l, lastWithUID l.rows.rows m.uid = some m := by
  simp only [touches_bulkMutation]
  refine ⟨fun h m hm => ?_, fun h folder uid => ?_⟩
  · obtain ⟨-, hf, -⟩ := (h m.folder m.uid).mpr ⟨m, hm, rfl, rfl⟩
    exact (folderForUID_eq_iff (hg m hm)).mp hf
  · rw [mem_selectedUIDs h]
    refine ⟨?_, ?_⟩
    · rintro ⟨⟨m, hm, rfl⟩, hf, -⟩
      exact ⟨m, hm, ((folderForUID_eq_iff (hg m hm)).mpr (h m hm)).symm.trans hf, rfl⟩
    · rintro ⟨m, hm, rfl, rfl⟩
      exact ⟨⟨m, hm, rfl⟩, (folderForUID_eq_iff (hg m hm)).mpr (h m hm), (l.named m (hg m hm)).2⟩

end Unread

/-- Two folders with a message of the same UID each. -/
def sameUID : UnreadList where
  rows := ⟨[⟨7, "INBOX"⟩, ⟨7, "Work"⟩], by decide⟩
  named := by decide

/-- The user deletes the second. -/
theorem bulk_unread_iff_second : (Gesture.clicks [⟨7, "Work"⟩]).Valid sameUID ∧ ∀ folder uid,
    Touches (bulkMutation (sameUID.view "INBOX" (by decide)) .delete
      ((Gesture.clicks [⟨7, "Work"⟩]).selectedUIDs sameUID)) folder uid ↔
      ∃ m ∈ (Gesture.clicks [⟨7, "Work"⟩]).chosen sameUID, m.folder = folder ∧ m.uid = uid :=
  ⟨by decide, (bulk_unread_iff "INBOX" (by decide) .delete (by decide)).mpr (by decide)⟩

/-- **The wrong message.** The user deletes the first message, and the request is for the
second. -/
theorem deletes_other_folder :
    ¬ ∀ (l : UnreadList) (currentFolder : String) (hcur : currentFolder ≠ "") (action : BulkAction)
      (g : Gesture), g.Valid l → ∀ folder uid,
      Touches (bulkMutation (l.view currentFolder hcur) action (g.selectedUIDs l)) folder uid ↔
        ∃ m ∈ g.chosen l, m.folder = folder ∧ m.uid = uid := by
  intro h
  have hwrong := h sameUID "INBOX" (by decide) .delete (.clicks [⟨7, "INBOX"⟩]) (by decide) "Work" 7
  exact absurd (hwrong.mp ⟨⟨"Work", [7], .delete⟩, by decide, rfl, by decide⟩) (by decide)

/-! ## Threads -/

/-- The view of a folder by threads. -/
def threadView (currentFolder : String) (h : currentFolder ≠ "") : View :=
  ⟨false, currentFolder, h, []⟩

/-- `memberUIDs`, `tUids`: the UIDs of the messages that came with a thread. -/
def memberUIDs (t : ThreadSummary) : List Nat := t.messages.map MessageSummary.uid

/-- `toggleThreadSelect`. -/
def toggleThreadSelect (prev uids : List Nat) (checked : Bool) : List Nat :=
  uids.foldl (fun set u => if checked then selectUID set u else set.filter (· != u)) prev

/-- How the user selects threads. -/
inductive ThreadGesture
  /-- a button behind a thread that is swept aside; it is for that thread -/
  | swipe
  /-- the checkboxes, one after the other, from no selection -/
  | check
  /-- `handleSelectAll` -/
  | all

/-- The UIDs that an operation on the threads is given. -/
def ThreadGesture.selectedUIDs (threads : List ThreadSummary) : ThreadGesture → List Nat
  | .swipe => threads.flatMap memberUIDs
  | .check => threads.foldl (fun prev t => toggleThreadSelect prev (memberUIDs t) true) []
  | .all => threads.flatMap memberUIDs

section Threads

variable {H : Headers} {idx : ThreadIndex} {uid : Nat}

theorem mem_toggleThreadSelect {prev uids : List Nat} :
    uid ∈ toggleThreadSelect prev uids true ↔ uid ∈ prev ∨ uid ∈ uids := by
  rw [toggleThreadSelect]
  induction uids generalizing prev with
  | nil => simp
  | cons u uids ih =>
    have hone : uid ∈ selectUID prev u ↔ uid ∈ prev ∨ uid = u := by
      rw [selectUID]
      by_cases hu : u ∈ prev
      · rw [if_pos hu]
        refine ⟨.inl, ?_⟩
        rintro (h | rfl)
        · exact h
        · exact hu
      · simp [hu]
    rw [List.foldl_cons, if_pos rfl, ih, hone, List.mem_cons, or_assoc]

/-- However they are selected, the UIDs are those that came with the threads. -/
theorem mem_selectedUIDs_threads {g : ThreadGesture} {threads : List ThreadSummary} :
    uid ∈ g.selectedUIDs threads ↔ ∃ t ∈ threads, uid ∈ memberUIDs t := by
  cases g with
  | swipe => exact List.mem_flatMap
  | all => exact List.mem_flatMap
  | check =>
    have hfold : ∀ (threads : List ThreadSummary) (prev : List Nat),
        uid ∈ threads.foldl (fun prev t => toggleThreadSelect prev (memberUIDs t) true) prev ↔
          uid ∈ prev ∨ ∃ t ∈ threads, uid ∈ memberUIDs t := by
      intro threads
      induction threads with
      | nil => simp
      | cons t threads ih =>
        intro prev
        rw [List.foldl_cons, ih, mem_toggleThreadSelect, or_assoc]
        simp
    rw [ThreadGesture.selectedUIDs, hfold]
    simp

/-- The messages that come with a thread are its first members, twenty at most. -/
theorem mem_memberUIDs {members : List ThreadNode} {t : ThreadSummary}
    (h : assembleThread H members = some t) :
    uid ∈ memberUIDs t ↔ ∃ n ∈ members.take threadMaxMembers, n.uid = uid := by
  cases members with
  | nil => cases h
  | cons first rest =>
    rw [assembleThread, Option.some.injEq] at h
    subst h
    rw [memberUIDs, List.map_map, List.mem_map]
    refine exists_congr fun n => and_congr_right fun _ => ?_
    rw [Function.comp_apply, n.summary_uid]

theorem messageCount_assembleThread {members : List ThreadNode} {t : ThreadSummary}
    (h : assembleThread H members = some t) : t.messageCount = members.length := by
  cases members with
  | nil => cases h
  | cons first rest =>
    rw [assembleThread, Option.some.injEq] at h
    subst h
    rfl

theorem assembleThread_of_mem {g : Nat × List ThreadNode} (hg : g ∈ buildThreadGroups H idx) :
    ∃ t, assembleThread H g.2 = some t := by
  obtain ⟨⟨n, hn, hroot⟩, -⟩ := mem_buildThreadGroups.mp hg
  have hmem := (mem_members hg).mpr ⟨hn, hroot⟩
  cases hg2 : g.2 with
  | nil =>
    rw [hg2] at hmem
    cases hmem
  | cons first rest => exact ⟨_, rfl⟩

theorem nodup_members {g : Nat × List ThreadNode} (hg : g ∈ buildThreadGroups H idx) :
    g.2.Nodup := by
  rw [(mem_buildThreadGroups.mp hg).2, sortByUID, (List.perm_insertionSort _ _).nodup_iff]
  exact (List.Nodup.of_map _ idx.nodes.nodup).filter _

/-- The UIDs selected are those of the first members of the threads. -/
theorem mem_selectedUIDs_groups {g : ThreadGesture} {groups : List (Nat × List ThreadNode)}
    (hgroups : ∀ gr ∈ groups, gr ∈ buildThreadGroups H idx) :
    uid ∈ g.selectedUIDs (assembleThreads H groups) ↔
      ∃ gr ∈ groups, ∃ n ∈ gr.2.take threadMaxMembers, n.uid = uid := by
  rw [mem_selectedUIDs_threads]
  refine ⟨?_, ?_⟩
  · rintro ⟨t, ht, huid⟩
    obtain ⟨gr, hgr, ht⟩ := List.mem_filterMap.mp ht
    exact ⟨gr, hgr, (mem_memberUIDs ht).mp huid⟩
  · rintro ⟨gr, hgr, huid⟩
    obtain ⟨t, ht⟩ := assembleThread_of_mem (hgroups gr hgr)
    exact ⟨t, List.mem_filterMap.mpr ⟨gr, hgr, ht⟩, (mem_memberUIDs ht).mpr huid⟩

/-- The member after the twentieth is not among the first twenty of any thread. -/
theorem not_mem_take_members {gr gr' : Nat × List ThreadNode} (hgr : gr ∈ buildThreadGroups H idx)
    (hgr' : gr' ∈ buildThreadGroups H idx) (hlt : threadMaxMembers < gr.2.length) :
    ∀ n ∈ gr'.2.take threadMaxMembers, n.uid ≠ (gr.2.get ⟨threadMaxMembers, hlt⟩).uid := by
  intro n hn huid
  have hin := (mem_members hgr).mp (List.get_mem gr.2 ⟨threadMaxMembers, hlt⟩)
  have hin' := (mem_members hgr').mp (List.mem_of_mem_take hn)
  have hnode : n = gr.2.get ⟨threadMaxMembers, hlt⟩ := eq_of_uid_node hin'.1 hin.1 huid
  have hroot : gr'.1 = gr.1 := by rw [← hin'.2, ← hin.2, hnode]
  have hsame : gr'.2 = gr.2 := by
    rw [(mem_buildThreadGroups.mp hgr).2, (mem_buildThreadGroups.mp hgr').2, hroot]
  rw [hsame, hnode] at hn
  obtain ⟨i, hi, hget⟩ := List.mem_iff_getElem.mp hn
  rw [List.length_take] at hi
  rw [List.getElem_take, List.get_eq_getElem] at hget
  have hi' : i = threadMaxMembers := (nodup_members hgr).getElem_inj_iff.mp hget
  omega

/-- **Threads.** An operation on threads acts on exactly their members, as many as the threads
count, just if none of them has more than twenty. -/
theorem bulk_threads_iff (currentFolder : String) (hcur : currentFolder ≠ "") (action : BulkAction)
    (g : ThreadGesture) {groups : List (Nat × List ThreadNode)}
    (hgroups : ∀ gr ∈ groups, gr ∈ buildThreadGroups H idx) :
    ((∀ folder uid, Touches (bulkMutation (threadView currentFolder hcur) action
        (g.selectedUIDs (assembleThreads H groups))) folder uid ↔
      folder = currentFolder ∧ ∃ gr ∈ groups, ∃ n ∈ gr.2, n.uid = uid) ∧
      ∀ gr ∈ groups, ∀ t, assembleThread H gr.2 = some t → t.messageCount = gr.2.length) ↔
    ∀ gr ∈ groups, gr.2.length ≤ threadMaxMembers := by
  have hfolder : ∀ uid, folderForUID (threadView currentFolder hcur) uid = currentFolder :=
    fun _ => rfl
  simp only [touches_bulkMutation, mem_selectedUIDs_groups hgroups, hfolder]
  refine ⟨?_, fun h => ⟨fun folder uid => ?_, fun gr _ t ht => messageCount_assembleThread ht⟩⟩
  · rintro ⟨h, -⟩ gr hgr
    by_contra hlong
    have hlt : threadMaxMembers < gr.2.length := Nat.lt_of_not_le hlong
    obtain ⟨⟨gr', hgr', n, hn, huid⟩, -⟩ :=
      (h currentFolder (gr.2.get ⟨threadMaxMembers, hlt⟩).uid).mpr
        ⟨rfl, gr, hgr, _, List.get_mem _ _, rfl⟩
    exact not_mem_take_members (hgroups gr hgr) (hgroups gr' hgr') hlt n hn huid
  · have htake : ∀ gr ∈ groups, gr.2.take threadMaxMembers = gr.2 :=
      fun gr hgr => List.take_of_length_le (h gr hgr)
    refine ⟨?_, ?_⟩
    · rintro ⟨⟨gr, hgr, n, hn, huid⟩, rfl, -⟩
      exact ⟨rfl, gr, hgr, n, List.mem_of_mem_take hn, huid⟩
    · rintro ⟨rfl, gr, hgr, n, hn, huid⟩
      rw [← htake gr hgr] at hn
      exact ⟨⟨gr, hgr, n, hn, huid⟩, rfl, hcur⟩

end Threads

/-- The index of a folder with messages of one subject. -/
def sameSubject (count : Nat) : ThreadIndex where
  uidValidity := 1
  uidNext := count + 1
  count := count
  builtAt := 0
  nodes := fetchThreadNodes asciiHeaders Table.empty
    ⟨(List.range count).map fun i => (i + 1, ⟨[], ⟨"", [], "news", i, [], ""⟩⟩), none⟩

/-- A thread of three messages. -/
theorem bulk_threads_iff_three :
    (∀ folder uid, Touches (bulkMutation (threadView "INBOX" (by decide)) .delete
        (ThreadGesture.swipe.selectedUIDs
          (assembleThreads asciiHeaders (buildThreadGroups asciiHeaders (sameSubject 3)))))
        folder uid ↔
      folder = "INBOX" ∧
        ∃ gr ∈ buildThreadGroups asciiHeaders (sameSubject 3), ∃ n ∈ gr.2, n.uid = uid) ∧
    ∀ gr ∈ buildThreadGroups asciiHeaders (sameSubject 3), ∀ t,
      assembleThread asciiHeaders gr.2 = some t → t.messageCount = gr.2.length :=
  (bulk_threads_iff "INBOX" (by decide) .delete .swipe fun _ h => h).mpr (by decide +kernel)

/-- **A message left over.** The user deletes a thread of twenty-one messages, and the request
is for twenty of them. -/
theorem deletes_twenty :
    ¬ ∀ (idx : ThreadIndex) (action : BulkAction) (g : ThreadGesture)
      (groups : List (Nat × List ThreadNode)),
      (∀ gr ∈ groups, gr ∈ buildThreadGroups asciiHeaders idx) →
      ∀ folder uid, Touches (bulkMutation (threadView "INBOX" (by decide)) action
        (g.selectedUIDs (assembleThreads asciiHeaders groups))) folder uid ↔
        folder = "INBOX" ∧ ∃ gr ∈ groups, ∃ n ∈ gr.2, n.uid = uid := by
  intro h
  have hlast := h (sameSubject 21) .delete .swipe (buildThreadGroups asciiHeaders (sameSubject 21))
    (fun _ h => h) "INBOX" 1
  have htouched := hlast.mpr ⟨rfl, by decide +kernel⟩
  exact absurd (touches_bulkMutation.mp htouched).1 (by decide +kernel)

end E2Mail.Frontend
