import E2Mail.Lib.BoundedQueue
import E2Mail.Lib.Separator
import E2Mail.Backend.Connections

/-!
# Announcing new mail

A listener watches one mailbox of one account of a session, and tells everybody who has
subscribed to it. The streams of the browser subscribe to the listeners of all accounts of their
session, take the announcements out of one channel after the other, and unsubscribe in the end.

* `Hub` — the listeners, the channels and the streams; `Hub.step` what is done under one lock.
* `Wired` — who subscribes to what, and that no channel is closed before that ends.
* `not_panicked` — no announcement is sent on a closed channel, and none is closed twice.
* `delivered` — what a client is told.
-/

namespace E2Mail.Backend.Events

open Lib Lib.BoundedQueue

/-! ## The listeners and the streams -/

/-- `MailboxEvent`. -/
structure MailboxEvent where
  type : String
  accountID : String
  mailbox : String
  totalCount : Nat
  timestamp : Nat
  deriving DecidableEq

/-- `IdleListener`. It leaves the map of `IdleManager` when it is stopped. -/
structure IdleListener where
  sessionID : String
  accountID : String
  mailbox : String
  /-- the numbers of the channels -/
  subscribers : List Nat
  closed : Bool
  deriving DecidableEq

/-- The channel that `Subscribe` makes. -/
structure EventChan where
  queue : List MailboxEvent
  closed : Bool
  deriving DecidableEq

/-- `make(chan MailboxEvent, 20)`. -/
def chanSize : Nat := 20

/-- What `unsubscribe` has closed over: the numbers of the listener and of the channel. -/
structure Subscription where
  listener : Nat
  chan : Nat
  deriving DecidableEq

/-- Where a stream is. -/
inductive Phase where
  /-- before `GetOrStartListener` for the first of the accounts that are left -/
  | opening (rest : List String)
  /-- before `Subscribe` -/
  | subscribing (listener : Nat) (rest : List String)
  /-- in the loop, before it looks at a channel -/
  | polling (next : Nat)
  /-- in `unsubscribeAll` -/
  | closing (rest : List Subscription)
  deriving DecidableEq

/-- A request of `SSE`. -/
structure Stream where
  sessionID : String
  /-- `sess.Accounts` -/
  accounts : List String
  phase : Phase
  subscriptions : List Subscription
  /-- what has been written to the client -/
  sent : List MailboxEvent
  deriving DecidableEq

/-- All listeners, channels and streams, in the order in which they were made. -/
structure Hub where
  listeners : List IdleListener
  chans : List EventChan
  streams : List Stream
  deriving DecidableEq

def Hub.empty : Hub := ⟨[], [], []⟩

/-- What ends the program. -/
inductive Panic where
  | sendOnClosed
  | closeOfClosed
  deriving DecidableEq

/-- Nothing if there is no such step. -/
abbrev Outcome := Option (Except Panic Hub)

def IdleListener.key (l : IdleListener) : String := connectionKey l.sessionID l.accountID

/-- The event with the account of the listener on it. -/
def IdleListener.stamp (l : IdleListener) (event : MailboxEvent) : MailboxEvent :=
  if l.accountID ≠ "" then { event with accountID := l.accountID } else event

/-- What `OnMailboxUpdate` announces. -/
def IdleListener.news (l : IdleListener) (numMessages now : Nat) : MailboxEvent :=
  ⟨"NEW_MESSAGE", "", l.mailbox, numMessages, now⟩

namespace Hub

variable (h : Hub)

/-- `GetOrStartListener`: the number of the listener in the map, which is a new one if there was none. -/
def getOrStartListener (sessionID accountID : String) : Nat × Hub :=
  match h.listeners.findIdx? fun l => !l.closed && l.key == connectionKey sessionID accountID with
  | some i => (i, h)
  | none => (h.listeners.length, { h with
      listeners := h.listeners ++ [⟨sessionID, accountID, "INBOX", [], false⟩] })

/-- `Subscribe`: the new channel has the next number. -/
def subscribe (i : Nat) (l : IdleListener) : Hub :=
  { h with
    listeners := h.listeners.set i { l with subscribers := l.subscribers ++ [h.chans.length] }
    chans := h.chans ++ [⟨[], false⟩] }

/-- A channel is closed. -/
def isClosed (ch : Nat) : Bool := (h.chans[ch]?).any (·.closed)

/-- `Broadcast`. -/
def broadcast (l : IdleListener) (event : MailboxEvent) : Except Panic Hub :=
  if l.subscribers.any h.isClosed then .error .sendOnClosed
  else .ok { h with
    chans := h.chans.mapIdx fun ch c =>
      if ch ∈ l.subscribers then { c with queue := offer chanSize c.queue (l.stamp event) } else c }

/-- `unsubscribe`. -/
def unsubscribe (sub : Subscription) (l : IdleListener) (c : EventChan) : Except Panic Hub :=
  if c.closed then .error .closeOfClosed
  else .ok { h with
    listeners := h.listeners.set sub.listener { l with subscribers := l.subscribers.erase sub.chan }
    chans := h.chans.set sub.chan { c with closed := true } }

/-- `Stop`, and out of the map. -/
def stopListeners (q : IdleListener → Bool) : Hub :=
  { h with listeners := h.listeners.map fun l => if !l.closed && q l then { l with closed := true } else l }

def setStream (s : Nat) (st : Stream) : Hub := { h with streams := h.streams.set s st }

end Hub

/-- What is left to do before the loop. -/
def Phase.next : List String → Phase
  | [] => .polling 0
  | rest => .opening rest

/-- What happens under one lock. -/
inductive Action where
  /-- `startIdleForAccounts` -/
  | start (sessionID accountID : String)
  /-- a request of `SSE` comes -/
  | connect (sessionID : String) (accounts : List String)
  | listen (s : Nat)
  | subscribe (s : Nat)
  /-- the loop looks at one channel -/
  | poll (s : Nat)
  /-- `r.Context().Done()` -/
  | disconnect (s : Nat)
  | unsubscribe (s : Nat)
  /-- the mailbox has changed -/
  | update (i numMessages now : Nat)
  | stopListener (sessionID accountID : String)
  | stopSessionListeners (sessionID : String)

/-- The hub after an action. -/
def Hub.step (h : Hub) : Action → Outcome
  | .start sessionID accountID => some (.ok (h.getOrStartListener sessionID accountID).2)
  | .connect sessionID accounts =>
    some (.ok { h with streams := h.streams ++ [⟨sessionID, accounts, .next accounts, [], []⟩] })
  | .listen s =>
    match h.streams[s]? with
    | some st =>
      match st.phase with
      | .opening (acc :: rest) =>
        let found := h.getOrStartListener st.sessionID acc
        some (.ok (found.2.setStream s { st with phase := .subscribing found.1 rest }))
      | _ => none
    | none => none
  | .subscribe s =>
    match h.streams[s]? with
    | some st =>
      match st.phase with
      | .subscribing i rest =>
        match h.listeners[i]? with
        | some l =>
          some (.ok ((h.subscribe i l).setStream s { st with
            phase := .next rest
            subscriptions := st.subscriptions ++ [⟨i, h.chans.length⟩] }))
        | none => none
      | _ => none
    | none => none
  | .poll s =>
    match h.streams[s]? with
    | some st =>
      match st.phase with
      | .polling next =>
        match st.subscriptions[next]? with
        | none => some (.ok h)
        | some sub =>
          match h.chans[sub.chan]? with
          | some c =>
            -- a full turn looks at all channels before it asks for the end of the request again
            some (.ok (Hub.setStream { h with chans := h.chans.set sub.chan { c with queue := c.queue.tail } }
              s { st with
                phase := .polling (if next + 1 < st.subscriptions.length then next + 1 else 0)
                sent := st.sent ++ c.queue.head?.toList }))
          | none => none
      | _ => none
    | none => none
  | .disconnect s =>
    match h.streams[s]? with
    | some st =>
      match st.phase with
      | .polling 0 => some (.ok (h.setStream s { st with phase := .closing st.subscriptions }))
      | _ => none
    | none => none
  | .unsubscribe s =>
    match h.streams[s]? with
    | some st =>
      match st.phase with
      | .closing (sub :: rest) =>
        match h.listeners[sub.listener]?, h.chans[sub.chan]? with
        | some l, some c =>
          some ((h.unsubscribe sub l c).map fun h' => h'.setStream s { st with phase := .closing rest })
        | _, _ => none
      | _ => none
    | none => none
  | .update i numMessages now =>
    match h.listeners[i]? with
    | some l => some (h.broadcast l (l.news numMessages now))
    | none => none
  | .stopListener sessionID accountID =>
    some (.ok (h.stopListeners fun l => l.key == connectionKey sessionID accountID))
  | .stopSessionListeners sessionID =>
    some (.ok (h.stopListeners fun l => (sessionID ++ "::").toList.isPrefixOf l.key.toList))

/-- The hub after a run of actions, unless one of them is not possible or panics. -/
def Hub.run (h : Hub) : List Action → Outcome
  | [] => some (.ok h)
  | a :: acts =>
    match h.step a with
    | some (.ok h') => h'.run acts
    | other => other

/-! ## Who subscribes to what -/

/-- The subscriptions for which `unsubscribe` has not been called. -/
def Stream.active (st : Stream) : List Subscription :=
  match st.phase with
  | .closing rest => rest
  | _ => st.subscriptions

/-- What is left of a hub when the events are forgotten. -/
@[ext] structure Wires where
  /-- the subscribers of a listener -/
  subs : Nat → List Nat
  /-- whether a channel is closed -/
  shut : Nat → Option Bool
  /-- what a stream has subscribed to -/
  had : Nat → List Subscription
  /-- and has not unsubscribed from -/
  live : Nat → List Subscription

def Hub.wires (h : Hub) : Wires where
  subs i := (h.listeners[i]?).elim [] (·.subscribers)
  shut ch := (h.chans[ch]?).elim none fun c => some c.closed
  had s := (h.streams[s]?).elim [] (·.subscriptions)
  live s := (h.streams[s]?).elim [] (·.active)

namespace Wires

variable {W : Wires} {s s' i ch : Nat} {sub sub' : Subscription} {rest : List Subscription}

/-- A stream subscribes to a listener, with a new channel. -/
def subscribe (W : Wires) (s i ch : Nat) : Wires where
  subs := Function.update W.subs i (W.subs i ++ [ch])
  shut := Function.update W.shut ch (some false)
  had := Function.update W.had s (W.had s ++ [⟨i, ch⟩])
  live := Function.update W.live s (W.live s ++ [⟨i, ch⟩])

/-- A stream leaves the first of its subscriptions. -/
def unsubscribe (W : Wires) (s : Nat) (sub : Subscription) (rest : List Subscription) : Wires where
  subs := Function.update W.subs sub.listener ((W.subs sub.listener).erase sub.chan)
  shut := Function.update W.shut sub.chan (some true)
  had := W.had
  live := Function.update W.live s rest

/-- What holds between two steps. -/
structure Wired (W : Wires) : Prop where
  joined : ∀ {i ch}, ch ∈ W.subs i → ∃ s, ⟨i, ch⟩ ∈ W.live s
  live_had : ∀ {s sub}, sub ∈ W.live s → sub ∈ W.had s
  live_joined : ∀ {s sub}, sub ∈ W.live s → sub.chan ∈ W.subs sub.listener
  live_open : ∀ {s sub}, sub ∈ W.live s → W.shut sub.chan = some false
  known : ∀ {s sub}, sub ∈ W.had s → W.shut sub.chan ≠ none
  once : ∀ {s s' sub sub'}, sub ∈ W.had s → sub' ∈ W.had s' → sub.chan = sub'.chan → s = s' ∧ sub = sub'
  live_nodup : ∀ s, (W.live s).Nodup
  subs_nodup : ∀ i, (W.subs i).Nodup

theorem mem_update_append {α : Type*} {f : Nat → List α} {a b : α} :
    a ∈ Function.update f s (f s ++ [b]) s' ↔ a ∈ f s' ∨ s' = s ∧ a = b := by
  by_cases hs : s' = s
  · rw [hs]
    simp
  · simp [hs]

theorem mem_subs_subscribe {i' ch' : Nat} :
    ch' ∈ (W.subscribe s i ch).subs i' ↔ ch' ∈ W.subs i' ∨ i' = i ∧ ch' = ch := mem_update_append

theorem mem_had_subscribe : sub ∈ (W.subscribe s i ch).had s' ↔ sub ∈ W.had s' ∨ s' = s ∧ sub = ⟨i, ch⟩ :=
  mem_update_append

theorem mem_live_subscribe : sub ∈ (W.subscribe s i ch).live s' ↔ sub ∈ W.live s' ∨ s' = s ∧ sub = ⟨i, ch⟩ :=
  mem_update_append

@[simp] theorem shut_subscribe_self : (W.subscribe s i ch).shut ch = some false := Function.update_self ..

theorem shut_subscribe_of_ne {ch' : Nat} (h : ch' ≠ ch) : (W.subscribe s i ch).shut ch' = W.shut ch' :=
  Function.update_of_ne h ..

theorem nodup_update_append {α : Type*} {f : Nat → List α} {b : α} (hf : ∀ s, (f s).Nodup)
    (hb : b ∉ f s) (s' : Nat) :
    (Function.update f s (f s ++ [b]) s').Nodup := by
  by_cases hs : s' = s
  · rw [hs, Function.update_self]
    exact List.nodup_append.mpr ⟨hf s, List.nodup_singleton b, fun a ha c hc hac =>
      hb (List.mem_singleton.mp hc ▸ hac ▸ ha)⟩
  · rw [Function.update_of_ne hs]
    exact hf s'

/-- A new channel is no channel of a subscription. -/
theorem Wired.fresh (hW : W.Wired) (hch : W.shut ch = none) (hsub : sub ∈ W.had s) :
    sub.chan ≠ ch := fun heq =>
  hW.known hsub (heq ▸ hch)

theorem Wired.subscribe (hW : W.Wired) (hch : W.shut ch = none) : (W.subscribe s i ch).Wired where
  joined {i' ch'} h := by
    obtain h | ⟨rfl, rfl⟩ := mem_subs_subscribe.mp h
    · obtain ⟨s', hs'⟩ := hW.joined h
      exact ⟨s', mem_live_subscribe.mpr (.inl hs')⟩
    · exact ⟨s, mem_live_subscribe.mpr (.inr ⟨rfl, rfl⟩)⟩
  live_had h := mem_had_subscribe.mpr ((mem_live_subscribe.mp h).imp_left hW.live_had)
  live_joined h := by
    obtain h | ⟨rfl, rfl⟩ := mem_live_subscribe.mp h
    · exact mem_subs_subscribe.mpr (.inl (hW.live_joined h))
    · exact mem_subs_subscribe.mpr (.inr ⟨rfl, rfl⟩)
  live_open h := by
    obtain h | ⟨rfl, rfl⟩ := mem_live_subscribe.mp h
    · exact (shut_subscribe_of_ne (hW.fresh hch (hW.live_had h))).trans (hW.live_open h)
    · exact shut_subscribe_self
  known h := by
    obtain h | ⟨rfl, rfl⟩ := mem_had_subscribe.mp h
    · rw [shut_subscribe_of_ne (hW.fresh hch h)]
      exact hW.known h
    · rw [shut_subscribe_self]
      exact Option.some_ne_none false
  once {s₁ s₂ sub₁ sub₂} h₁ h₂ heq := by
    rcases mem_had_subscribe.mp h₁ with hin | ⟨rfl, rfl⟩ <;> rcases mem_had_subscribe.mp h₂ with hin' | ⟨rfl, rfl⟩
    · exact hW.once hin hin' heq
    · exact absurd heq (hW.fresh hch hin)
    · exact absurd heq.symm (hW.fresh hch hin')
    · exact ⟨rfl, rfl⟩
  live_nodup := nodup_update_append hW.live_nodup fun h => hW.fresh hch (hW.live_had h) rfl
  subs_nodup := nodup_update_append hW.subs_nodup fun h => by
    obtain ⟨s', hs'⟩ := hW.joined h
    exact hW.fresh hch (hW.live_had hs') rfl

section Unsubscribe

@[simp] theorem subs_unsubscribe_self :
    (W.unsubscribe s sub rest).subs sub.listener = (W.subs sub.listener).erase sub.chan :=
  Function.update_self ..

theorem subs_unsubscribe_of_ne (h : i ≠ sub.listener) : (W.unsubscribe s sub rest).subs i = W.subs i :=
  Function.update_of_ne h ..

@[simp] theorem live_unsubscribe_self : (W.unsubscribe s sub rest).live s = rest := Function.update_self ..

theorem live_unsubscribe_of_ne (h : s' ≠ s) : (W.unsubscribe s sub rest).live s' = W.live s' :=
  Function.update_of_ne h ..

@[simp] theorem shut_unsubscribe_self : (W.unsubscribe s sub rest).shut sub.chan = some true :=
  Function.update_self ..

theorem shut_unsubscribe_of_ne (h : ch ≠ sub.chan) : (W.unsubscribe s sub rest).shut ch = W.shut ch :=
  Function.update_of_ne h ..

variable (hlive : W.live s = sub :: rest)

include hlive in
theorem mem_live_unsubscribe (h : sub' ∈ (W.unsubscribe s sub rest).live s') : sub' ∈ W.live s' := by
  by_cases hs : s' = s
  · subst hs
    rw [live_unsubscribe_self] at h
    rw [hlive]
    exact List.mem_cons_of_mem sub h
  · rwa [live_unsubscribe_of_ne hs] at h

include hlive in
/-- The subscription that is left has another channel than those that stay. -/
theorem Wired.chan_ne (hW : W.Wired) (h : sub' ∈ (W.unsubscribe s sub rest).live s') :
    sub'.chan ≠ sub.chan := by
  intro heq
  have hsub : sub ∈ W.live s := hlive ▸ List.mem_cons_self
  obtain ⟨rfl, rfl⟩ := hW.once (hW.live_had (mem_live_unsubscribe hlive h)) (hW.live_had hsub) heq
  rw [live_unsubscribe_self] at h
  have hnodup := hW.live_nodup s'
  rw [hlive] at hnodup
  exact (List.nodup_cons.mp hnodup).1 h

theorem mem_subs_unsubscribe (hW : W.Wired) :
    ch ∈ (W.unsubscribe s sub rest).subs i ↔ ch ∈ W.subs i ∧ ¬(i = sub.listener ∧ ch = sub.chan) := by
  by_cases hi : i = sub.listener
  · subst hi
    rw [subs_unsubscribe_self, (hW.subs_nodup _).mem_erase_iff, and_comm]
    simp
  · rw [subs_unsubscribe_of_ne hi]
    simp [hi]

include hlive in
theorem Wired.unsubscribe (hW : W.Wired) : (W.unsubscribe s sub rest).Wired where
  joined {i' ch'} h := by
    obtain ⟨hin, hne⟩ := (mem_subs_unsubscribe hW).mp h
    obtain ⟨s', hs'⟩ := hW.joined hin
    refine ⟨s', ?_⟩
    by_cases hs : s' = s
    · subst hs
      rw [live_unsubscribe_self]
      rw [hlive] at hs'
      rcases List.mem_cons.mp hs' with rfl | hrest
      · exact absurd ⟨rfl, rfl⟩ hne
      · exact hrest
    · rwa [live_unsubscribe_of_ne hs]
  live_had h := hW.live_had (mem_live_unsubscribe hlive h)
  live_joined h := (mem_subs_unsubscribe hW).mpr
    ⟨hW.live_joined (mem_live_unsubscribe hlive h), fun heq => hW.chan_ne hlive h heq.2⟩
  live_open h := by
    rw [shut_unsubscribe_of_ne (hW.chan_ne hlive h)]
    exact hW.live_open (mem_live_unsubscribe hlive h)
  known {s' sub'} h := by
    by_cases hch : sub'.chan = sub.chan
    · rw [hch, shut_unsubscribe_self]
      exact Option.some_ne_none true
    · rw [shut_unsubscribe_of_ne hch]
      exact hW.known h
  once := hW.once
  live_nodup s' := by
    have hnodup := hW.live_nodup s'
    by_cases hs : s' = s
    · subst hs
      rw [hlive] at hnodup
      rw [live_unsubscribe_self]
      exact (List.nodup_cons.mp hnodup).2
    · rwa [live_unsubscribe_of_ne hs]
  subs_nodup i' := by
    by_cases hi : i' = sub.listener
    · subst hi
      rw [subs_unsubscribe_self]
      exact (hW.subs_nodup _).erase _
    · rw [subs_unsubscribe_of_ne hi]
      exact hW.subs_nodup i'

end Unsubscribe

end Wires

/-! ## The steps -/

section Lists

variable {α β : Type*} {l : List α} {d : β} {g : α → β} {i : Nat} {x y : α}

theorem elim_set (hi : l[i]? = some y) :
    (fun j => ((l.set i x)[j]?).elim d g) = Function.update (fun j => (l[j]?).elim d g) i (g x) := by
  funext j
  have hlt : i < l.length := (List.getElem?_eq_some_iff.mp hi).1
  by_cases hj : j = i
  · subst hj
    rw [List.getElem?_set_self hlt, Function.update_self, Option.elim_some]
  · rw [List.getElem?_set_ne (Ne.symm hj), Function.update_of_ne hj]

theorem elim_append :
    (fun j => ((l ++ [x])[j]?).elim d g) = Function.update (fun j => (l[j]?).elim d g) l.length (g x) := by
  funext j
  by_cases hj : j = l.length
  · subst hj
    rw [List.getElem?_concat_length, Function.update_self, Option.elim_some]
  · rw [Function.update_of_ne hj]
    by_cases hlt : j < l.length
    · rw [List.getElem?_append_left hlt]
    · rw [List.getElem?_eq_none (by simp; omega), List.getElem?_eq_none (by omega)]

end Lists

namespace Hub

variable {h h' : Hub} {a : Action} {s i : Nat} {l : IdleListener} {c : EventChan} {st : Stream}

theorem wires_setListener (hl : h.listeners[i]? = some l) (l' : IdleListener) :
    ({ h with listeners := h.listeners.set i l' } : Hub).wires =
      { h.wires with subs := Function.update h.wires.subs i l'.subscribers } := by
  ext1 <;> first | rfl | exact elim_set hl

theorem wires_addListener (h : Hub) (l' : IdleListener) :
    ({ h with listeners := h.listeners ++ [l'] } : Hub).wires =
      { h.wires with subs := Function.update h.wires.subs h.listeners.length l'.subscribers } := by
  ext1 <;> first | rfl | exact elim_append

theorem wires_setChan {ch : Nat} (hc : h.chans[ch]? = some c) (c' : EventChan) :
    ({ h with chans := h.chans.set ch c' } : Hub).wires =
      { h.wires with shut := Function.update h.wires.shut ch (some c'.closed) } := by
  ext1 <;> first | rfl | exact elim_set hc

theorem wires_addChan (h : Hub) (c' : EventChan) :
    ({ h with chans := h.chans ++ [c'] } : Hub).wires =
      { h.wires with shut := Function.update h.wires.shut h.chans.length (some c'.closed) } := by
  ext1 <;> first | rfl | exact elim_append

theorem wires_setStream (hst : h.streams[s]? = some st) (st' : Stream) :
    (h.setStream s st').wires =
      { h.wires with
        had := Function.update h.wires.had s st'.subscriptions
        live := Function.update h.wires.live s st'.active } := by
  ext1 <;> first | rfl | exact elim_set hst

theorem wires_addStream (h : Hub) (st' : Stream) :
    ({ h with streams := h.streams ++ [st'] } : Hub).wires =
      { h.wires with
        had := Function.update h.wires.had h.streams.length st'.subscriptions
        live := Function.update h.wires.live h.streams.length st'.active } := by
  ext1 <;> first | rfl | exact elim_append

theorem had_eq (hst : h.streams[s]? = some st) : h.wires.had s = st.subscriptions := by
  simp [wires, hst]

theorem live_eq (hst : h.streams[s]? = some st) : h.wires.live s = st.active := by
  simp [wires, hst]

theorem subs_eq (hl : h.listeners[i]? = some l) : h.wires.subs i = l.subscribers := by
  simp [wires, hl]

theorem shut_eq (hc : h.chans[i]? = some c) : h.wires.shut i = some c.closed := by
  simp [wires, hc]

/-- A step of a stream that leaves its subscriptions as they are. -/
theorem wires_setStream_same (hst : h.streams[s]? = some st) {phase : Phase} {sent : List MailboxEvent}
    (hlive : Stream.active { st with phase := phase, sent := sent } = st.active) :
    (h.setStream s { st with phase := phase, sent := sent }).wires = h.wires := by
  rw [wires_setStream hst, hlive, ← had_eq hst, ← live_eq hst, Function.update_eq_self,
    Function.update_eq_self]

/-- What `GetOrStartListener` does. -/
theorem wires_getOrStartListener (h : Hub) (sessionID accountID : String) :
    (h.getOrStartListener sessionID accountID).2.wires = h.wires := by
  rw [getOrStartListener]
  split
  · rfl
  · have hnone : h.wires.subs h.listeners.length = [] := by simp [wires]
    have hsame := Function.update_eq_self h.listeners.length h.wires.subs
    rw [hnone] at hsame
    rw [wires_addListener, hsame]

theorem wires_stopListeners (q : IdleListener → Bool) : (h.stopListeners q).wires = h.wires := by
  ext1
  · funext i
    simp only [wires, stopListeners, List.getElem?_map]
    cases h.listeners[i]? with
    | none => rfl
    | some l =>
      simp only [Option.map_some, Option.elim_some]
      split <;> rfl
  · rfl
  · rfl
  · rfl

/-- An announcement does not close a channel. -/
theorem wires_broadcast {event : MailboxEvent} (hstep : h.broadcast l event = .ok h') :
    h'.wires = h.wires := by
  rw [broadcast] at hstep
  split at hstep
  · cases hstep
  · obtain rfl := Except.ok.inj hstep
    ext1
    · rfl
    · funext ch
      simp only [wires, List.getElem?_mapIdx]
      cases h.chans[ch]? with
      | none => rfl
      | some c =>
        simp only [Option.map_some, Option.elim_some]
        split <;> rfl
    · rfl
    · rfl

/-- What a step can do, one case for each line of the handlers. -/
inductive Stepped (h : Hub) : Action → Hub → Prop
  | start (sessionID accountID : String) :
    Stepped h (.start sessionID accountID) (h.getOrStartListener sessionID accountID).2
  | connect (sessionID : String) (accounts : List String) :
    Stepped h (.connect sessionID accounts)
      { h with streams := h.streams ++ [⟨sessionID, accounts, .next accounts, [], []⟩] }
  | listen {s : Nat} {st : Stream} {acc : String} {rest : List String} (hst : h.streams[s]? = some st)
      (hphase : st.phase = .opening (acc :: rest)) :
    Stepped h (.listen s) ((h.getOrStartListener st.sessionID acc).2.setStream s
      { st with phase := .subscribing (h.getOrStartListener st.sessionID acc).1 rest })
  | subscribe {s i : Nat} {st : Stream} {l : IdleListener} {rest : List String}
      (hst : h.streams[s]? = some st)
      (hphase : st.phase = .subscribing i rest) (hl : h.listeners[i]? = some l) :
    Stepped h (.subscribe s) ((h.subscribe i l).setStream s { st with
      phase := .next rest
      subscriptions := st.subscriptions ++ [⟨i, h.chans.length⟩] })
  | idle {s next : Nat} {st : Stream} (hst : h.streams[s]? = some st) (hphase : st.phase = .polling next)
      (hnone : st.subscriptions[next]? = none) : Stepped h (.poll s) h
  | poll {s next : Nat} {st : Stream} {sub : Subscription} {c : EventChan} (hst : h.streams[s]? = some st)
      (hphase : st.phase = .polling next) (hsub : st.subscriptions[next]? = some sub)
      (hc : h.chans[sub.chan]? = some c) :
    Stepped h (.poll s) (Hub.setStream { h with chans := h.chans.set sub.chan { c with queue := c.queue.tail } } s
      { st with
        phase := .polling (if next + 1 < st.subscriptions.length then next + 1 else 0)
        sent := st.sent ++ c.queue.head?.toList })
  | disconnect {s : Nat} {st : Stream} (hst : h.streams[s]? = some st) (hphase : st.phase = .polling 0) :
    Stepped h (.disconnect s) (h.setStream s { st with phase := .closing st.subscriptions })
  | unsubscribe {s : Nat} {st : Stream} {sub : Subscription} {rest : List Subscription} {l : IdleListener}
      {c : EventChan} (hst : h.streams[s]? = some st) (hphase : st.phase = .closing (sub :: rest))
      (hl : h.listeners[sub.listener]? = some l) (hc : h.chans[sub.chan]? = some c)
      (hopen : c.closed = false) :
    Stepped h (.unsubscribe s) (Hub.setStream { h with
      listeners := h.listeners.set sub.listener { l with subscribers := l.subscribers.erase sub.chan }
      chans := h.chans.set sub.chan { c with closed := true } } s { st with phase := .closing rest })
  | update {i : Nat} {l : IdleListener} {h' : Hub} {numMessages now : Nat} (hl : h.listeners[i]? = some l)
      (hsent : h.broadcast l (l.news numMessages now) = .ok h') : Stepped h (.update i numMessages now) h'
  | stopListener (sessionID accountID : String) :
    Stepped h (.stopListener sessionID accountID)
      (h.stopListeners fun l => l.key == connectionKey sessionID accountID)
  | stopSessionListeners (sessionID : String) :
    Stepped h (.stopSessionListeners sessionID)
      (h.stopListeners fun l => (sessionID ++ "::").toList.isPrefixOf l.key.toList)

theorem stepped_of_step (hstep : h.step a = some (.ok h')) : Stepped h a h' := by
  cases a <;> simp only [step] at hstep
  case start => exact Except.ok.inj (Option.some.inj hstep) ▸ .start ..
  case connect => exact Except.ok.inj (Option.some.inj hstep) ▸ .connect ..
  case stopListener => exact Except.ok.inj (Option.some.inj hstep) ▸ .stopListener ..
  case stopSessionListeners => exact Except.ok.inj (Option.some.inj hstep) ▸ .stopSessionListeners ..
  case listen s =>
    split at hstep
    · rename_i st hst
      split at hstep
      · rename_i acc rest hphase
        exact Except.ok.inj (Option.some.inj hstep) ▸ .listen hst hphase
      · cases hstep
    · cases hstep
  case subscribe s =>
    split at hstep
    · rename_i st hst
      split at hstep
      · rename_i i rest hphase
        split at hstep
        · rename_i l hl
          exact Except.ok.inj (Option.some.inj hstep) ▸ .subscribe hst hphase hl
        · cases hstep
      · cases hstep
    · cases hstep
  case poll s =>
    split at hstep
    · rename_i st hst
      split at hstep
      · rename_i next hphase
        split at hstep
        · rename_i hnone
          exact Except.ok.inj (Option.some.inj hstep) ▸ .idle hst hphase hnone
        · rename_i sub hsub
          split at hstep
          · rename_i c hc
            exact Except.ok.inj (Option.some.inj hstep) ▸ .poll hst hphase hsub hc
          · cases hstep
      · cases hstep
    · cases hstep
  case disconnect s =>
    split at hstep
    · rename_i st hst
      split at hstep
      · rename_i hphase
        exact Except.ok.inj (Option.some.inj hstep) ▸ .disconnect hst hphase
      · cases hstep
    · cases hstep
  case unsubscribe s =>
    split at hstep
    · rename_i st hst
      split at hstep
      · rename_i sub rest hphase
        split at hstep
        · rename_i l c hl hc
          by_cases hclosed : c.closed
          · rw [Hub.unsubscribe, if_pos hclosed] at hstep
            cases Option.some.inj hstep
          · rw [Hub.unsubscribe, if_neg hclosed] at hstep
            exact Except.ok.inj (Option.some.inj hstep) ▸
              .unsubscribe hst hphase hl hc (Bool.eq_false_of_not_eq_true hclosed)
        · cases hstep
      · cases hstep
    · cases hstep
  case update i numMessages now =>
    split at hstep
    · rename_i l hl
      exact .update hl (Option.some.inj hstep)
    · cases hstep

/-- What a step can do to the wires. -/
inductive Rewired (W : Wires) : Action → Wires → Prop
  | same (a : Action) : Rewired W a W
  | subscribe {s : Nat} (i : Nat) {ch : Nat} (hch : W.shut ch = none) :
      Rewired W (.subscribe s) (W.subscribe s i ch)
  | unsubscribe {s : Nat} {sub : Subscription} {rest : List Subscription} (hlive : W.live s = sub :: rest) :
    Rewired W (.unsubscribe s) (W.unsubscribe s sub rest)

@[simp] theorem active_next (rest : List String) (st : Stream) :
    Stream.active { st with phase := .next rest } = st.subscriptions := by
  cases rest <;> rfl

theorem rewired (hstep : Stepped h a h') : Rewired h.wires a h'.wires := by
  cases hstep with
  | start sid aid => exact wires_getOrStartListener h sid aid ▸ .same _
  | connect sid accounts =>
    have hsame : ({ h with streams := h.streams ++ [⟨sid, accounts, .next accounts, [], []⟩] } : Hub).wires = h.wires := by
      have hnone : h.wires.had h.streams.length = [] := by simp [wires]
      have hdead : h.wires.live h.streams.length = [] := by simp [wires]
      have hactive : Stream.active ⟨sid, accounts, .next accounts, [], []⟩ = [] := by cases accounts <;> rfl
      have hhad := Function.update_eq_self h.streams.length h.wires.had
      have hlive := Function.update_eq_self h.streams.length h.wires.live
      rw [hnone] at hhad
      rw [hdead] at hlive
      rw [wires_addStream, hactive, hhad, hlive]
    rw [hsame]
    exact .same _
  | @listen s st acc rest hst hphase =>
    have hst' : (h.getOrStartListener st.sessionID acc).2.streams[s]? = some st := by
      rw [getOrStartListener]
      split <;> exact hst
    rw [wires_setStream_same hst' (by simp [Stream.active, hphase]), wires_getOrStartListener]
    exact .same _
  | @subscribe s i st l rest hst hphase hl =>
    have hactive : st.active = st.subscriptions := by simp [Stream.active, hphase]
    have hwires : ((h.subscribe i l).setStream s { st with
        phase := .next rest, subscriptions := st.subscriptions ++ [⟨i, h.chans.length⟩] }).wires =
        h.wires.subscribe s i h.chans.length := by
      rw [wires_setStream (h := h.subscribe i l) hst, Wires.subscribe, had_eq hst, live_eq hst,
        subs_eq hl, hactive]
      have hadded := wires_addChan h ⟨[], false⟩
      have hset := wires_setListener (h := { h with chans := h.chans ++ [⟨[], false⟩] })
        hl { l with subscribers := l.subscribers ++ [h.chans.length] }
      rw [hadded] at hset
      rw [Hub.subscribe, hset]
      cases rest <;> rfl
    rw [hwires]
    exact .subscribe i (by simp [wires])
  | idle => exact .same _
  | @poll s next st sub c hst hphase hsub hc =>
    have hset := wires_setChan hc { c with queue := c.queue.tail }
    rw [← shut_eq hc, Function.update_eq_self] at hset
    rw [wires_setStream_same (h := { h with chans := h.chans.set sub.chan { c with queue := c.queue.tail } }) hst
      (by simp [Stream.active, hphase]), hset]
    exact .same _
  | @disconnect s st hst hphase =>
    rw [wires_setStream_same hst (by simp [Stream.active, hphase])]
    exact .same _
  | @unsubscribe s st sub rest l c hst hphase hl hc hopen =>
    have hlive : h.wires.live s = sub :: rest := by
      rw [live_eq hst, Stream.active, hphase]
    have hset := wires_setListener hl { l with subscribers := l.subscribers.erase sub.chan }
    have hclose := wires_setChan (h := { h with
      listeners := h.listeners.set sub.listener { l with subscribers := l.subscribers.erase sub.chan } })
      hc { c with closed := true }
    rw [hset] at hclose
    rw [wires_setStream (h := { h with
      listeners := h.listeners.set sub.listener { l with subscribers := l.subscribers.erase sub.chan }
      chans := h.chans.set sub.chan { c with closed := true } }) hst, hclose, ← subs_eq hl,
      ← had_eq hst, Function.update_eq_self]
    exact .unsubscribe hlive
  | update hl hsent => exact wires_broadcast hsent ▸ .same _
  | stopListener => exact wires_stopListeners (h := h) _ ▸ .same _
  | stopSessionListeners => exact wires_stopListeners (h := h) _ ▸ .same _

end Hub

/-! ## No panic -/

namespace Hub

variable {h h' : Hub} {a : Action} {acts : List Action} {p : Panic}

/-- The first step of a run. -/
theorem run_cons (hrun : h.run (a :: acts) = some (.ok h')) :
    ∃ h₁, h.step a = some (.ok h₁) ∧ h₁.run acts = some (.ok h') := by
  rw [run] at hrun
  split at hrun
  · rename_i h₁ hstep
    exact ⟨h₁, hstep, hrun⟩
  · rename_i hother
    exact absurd hrun (hother h')

theorem wired_of_rewired {W W' : Wires} (hW : W.Wired) (h : Rewired W a W') : W'.Wired := by
  cases h with
  | same => exact hW
  | subscribe i hch => exact hW.subscribe hch
  | unsubscribe hlive => exact hW.unsubscribe hlive

theorem wired_empty : Hub.empty.wires.Wired where
  joined h := by simp [Hub.empty, wires] at h
  live_had h := by simp [Hub.empty, wires] at h
  live_joined h := by simp [Hub.empty, wires] at h
  live_open h := by simp [Hub.empty, wires] at h
  known h := by simp [Hub.empty, wires] at h
  once h := by simp [Hub.empty, wires] at h
  live_nodup s := by simp [Hub.empty, wires]
  subs_nodup i := by simp [Hub.empty, wires]

theorem wired_run (hW : h.wires.Wired) (hrun : h.run acts = some (.ok h')) : h'.wires.Wired := by
  induction acts generalizing h with
  | nil => exact Except.ok.inj (Option.some.inj hrun) ▸ hW
  | cons a acts ih =>
    obtain ⟨h₁, hstep, hrest⟩ := run_cons hrun
    exact ih (wired_of_rewired hW (rewired (stepped_of_step hstep))) hrest

/-- A subscribed channel is open. -/
theorem not_closed_of_mem (hW : h.wires.Wired) {i ch : Nat} {l : IdleListener} (hl : h.listeners[i]? = some l)
    (hch : ch ∈ l.subscribers) : h.isClosed ch = false := by
  obtain ⟨s, hlive⟩ := hW.joined (subs_eq hl ▸ hch)
  have hopen := hW.live_open hlive
  rw [isClosed]
  cases hc : h.chans[ch]? with
  | none => rfl
  | some c =>
    rw [shut_eq hc] at hopen
    exact Option.some.inj hopen

theorem step_ne_error (hW : h.wires.Wired) : h.step a ≠ some (.error p) := by
  intro hstep
  cases a <;> simp only [step] at hstep
  case start => cases Option.some.inj hstep
  case connect => cases Option.some.inj hstep
  case stopListener => cases Option.some.inj hstep
  case stopSessionListeners => cases Option.some.inj hstep
  case listen s => repeat' split at hstep <;> try cases hstep
  case subscribe s => repeat' split at hstep <;> try cases hstep
  case poll s => repeat' split at hstep <;> try cases hstep
  case disconnect s => repeat' split at hstep <;> try cases hstep
  case unsubscribe s =>
    split at hstep
    · rename_i st hst
      split at hstep
      · rename_i sub rest hphase
        split at hstep
        · rename_i l c hl hc
          have hlive : sub ∈ h.wires.live s := by simp [live_eq hst, Stream.active, hphase]
          have hopen : c.closed = false := Option.some.inj ((shut_eq hc).symm.trans (hW.live_open hlive))
          rw [Hub.unsubscribe, hopen, if_neg Bool.false_ne_true] at hstep
          cases Option.some.inj hstep
        · cases hstep
      · cases hstep
    · cases hstep
  case update i numMessages now =>
    split at hstep
    · rename_i l hl
      have hnone : l.subscribers.any h.isClosed = false :=
        List.any_eq_false.mpr fun ch hch => Bool.eq_false_iff.mp (not_closed_of_mem hW hl hch)
      rw [broadcast, hnone, if_neg Bool.false_ne_true] at hstep
      cases Option.some.inj hstep
    · cases hstep

/-- **No run panics.** -/
theorem not_panicked (acts : List Action) : Hub.empty.run acts ≠ some (.error p) := by
  suffices hgoal : ∀ h : Hub, h.wires.Wired → h.run acts ≠ some (.error p) from hgoal _ wired_empty
  induction acts with
  | nil => exact fun h _ hrun => nomatch hrun
  | cons a acts ih =>
    intro h hW hrun
    rw [run] at hrun
    split at hrun
    · rename_i h₁ hstep
      exact ih h₁ (wired_of_rewired hW (rewired (stepped_of_step hstep))) hrun
    · exact step_ne_error hW hrun

end Hub

/-! ## Whose news it is -/

/-- Ids of sessions have no colon in them, and the accounts of a session have different ids. -/
def Action.Proper : Action → Prop
  | .start sessionID _ => ':' ∉ sessionID.toList
  | .connect sessionID accounts => ':' ∉ sessionID.toList ∧ accounts.Nodup
  | _ => True

/-- The session, the account and the mailbox of a listener. -/
abbrev Ident := String × String × String

namespace Hub

/-- Whom the listener with this number is for. -/
def ident (h : Hub) (i : Nat) : Option Ident :=
  (h.listeners[i]?).map fun l => (l.sessionID, l.accountID, l.mailbox)

/-- What a stream of this session needs for an account. -/
def wanted (sessionID accountID : String) : Option Ident := some (sessionID, accountID, "INBOX")

/-- The listeners that a stream has yet to subscribe to. -/
def pending (h : Hub) (st : Stream) : List (Option Ident) :=
  match st.phase with
  | .opening rest => rest.map (wanted st.sessionID)
  | .subscribing i rest => h.ident i :: rest.map (wanted st.sessionID)
  | _ => []

/-- What waits in a channel. -/
def waiting (h : Hub) (ch : Nat) : List MailboxEvent := (h.chans[ch]?).elim [] (·.queue)

/-- What the client of a stream has been told about an account. -/
def told (h : Hub) (s : Nat) (accountID : String) : List MailboxEvent :=
  (h.streams[s]?).elim [] fun st => st.sent.filter (·.accountID == accountID)

/-- Streams and listeners belong to each other, and so do channels and what is in them. -/
structure Routed (h : Hub) : Prop where
  listeners : ∀ l ∈ h.listeners, ':' ∉ l.sessionID.toList ∧ l.mailbox = "INBOX"
  streams : ∀ st ∈ h.streams, ':' ∉ st.sessionID.toList ∧ st.accounts.Nodup
  own : ∀ st ∈ h.streams, st.subscriptions.map (fun sub => h.ident sub.listener) ++ h.pending st =
    st.accounts.map (wanted st.sessionID)
  named : ∀ {s sub e}, sub ∈ h.wires.had s → e ∈ h.waiting sub.chan →
    ∃ sessionID, h.ident sub.listener = wanted sessionID e.accountID

variable {h h' : Hub} {a : Action} {s i : Nat} {sub : Subscription} {x : Ident}

theorem connectionKey_inj {id id' acc acc' : String} (hid : ':' ∉ id.toList) (hid' : ':' ∉ id'.toList)
    (h : connectionKey id acc = connectionKey id' acc') : id = id' ∧ acc = acc' := by
  have hkey : ∀ id acc, (connectionKey id acc).toList = id.toList ++ ':' :: ':' :: acc.toList :=
    fun id acc => by
    simp [connectionKey, String.toList_append]
  have hlist := congrArg String.toList h
  rw [hkey, hkey] at hlist
  obtain ⟨hsame, hrest⟩ := Separator.append_cons_inj hid hid' hlist
  exact ⟨String.toList_inj.mp hsame, String.toList_inj.mp (List.cons.inj hrest).2⟩

/-- Listeners stay what they are. -/
theorem ident_stepped (hstep : Stepped h a h') (hi : h.ident i = some x) : h'.ident i = some x := by
  have hset : ∀ (j : Nat) (l l' : IdleListener) (chans : List EventChan) (streams : List Stream),
    h.listeners[j]? = some l →
      (l'.sessionID, l'.accountID, l'.mailbox) = (l.sessionID, l.accountID, l.mailbox) →
      (⟨h.listeners.set j l', chans, streams⟩ : Hub).ident i = some x := by
    intro j l l' chans streams hl hsame
    rw [← hi, ident, ident]
    by_cases hj : i = j
    · subst hj
      rw [List.getElem?_set_self (List.getElem?_eq_some_iff.mp hl).1, hl, Option.map_some,
        Option.map_some, hsame]
    · rw [List.getElem?_set_ne (Ne.symm hj)]
  have hstart : ∀ sid aid, (h.getOrStartListener sid aid).2.ident i = some x := by
    intro sid aid
    rw [getOrStartListener]
    split
    · exact hi
    · obtain ⟨l, hl, -⟩ := Option.map_eq_some_iff.mp hi
      rw [← hi, ident, ident, List.getElem?_append_left (List.getElem?_eq_some_iff.mp hl).1]
  have hstop : ∀ q, (h.stopListeners q).ident i = some x := by
    intro q
    rw [← hi, ident, ident, stopListeners, List.getElem?_map, Option.map_map]
    congr 1
    funext l
    simp only [Function.comp_apply]
    split <;> rfl
  cases hstep with
  | start sid aid => exact hstart sid aid
  | connect => exact hi
  | listen => exact hstart ..
  | subscribe hst hphase hl => exact hset _ _ _ _ _ hl rfl
  | idle => exact hi
  | poll => exact hi
  | disconnect => exact hi
  | unsubscribe hst hphase hl => exact hset _ _ _ _ _ hl rfl
  | update hl hsent =>
    rw [broadcast] at hsent
    split at hsent
    · cases hsent
    · exact Except.ok.inj hsent ▸ hi
  | stopListener => exact hstop _
  | stopSessionListeners => exact hstop _

/-- The listener that `GetOrStartListener` gives is the one that was asked for. -/
theorem ident_getOrStartListener (hR : Routed h) {id acc : String} (hid : ':' ∉ id.toList) :
    (h.getOrStartListener id acc).2.ident (h.getOrStartListener id acc).1 = wanted id acc := by
  rw [getOrStartListener]
  split
  · rename_i j hj
    obtain ⟨hlt, hfound, -⟩ := List.findIdx?_eq_some_iff_getElem.mp hj
    obtain ⟨hcolon, hinbox⟩ := hR.listeners _ (List.getElem_mem hlt)
    have hkey := beq_iff_eq.mp (Bool.and_eq_true_iff.mp hfound).2
    obtain ⟨hid', hacc⟩ := connectionKey_inj hcolon hid hkey
    rw [ident, List.getElem?_eq_getElem hlt, Option.map_some, hid', hacc, hinbox, wanted]
  · rw [ident, List.getElem?_concat_length, Option.map_some, wanted]

/-- Who is subscribed to stays so. -/
theorem own_stepped {st : Stream} (hstep : Stepped h a h')
    (hown : st.subscriptions.map (fun sub => h.ident sub.listener) ++ h.pending st =
      st.accounts.map (wanted st.sessionID)) :
    st.subscriptions.map (fun sub => h'.ident sub.listener) ++ h'.pending st =
      st.accounts.map (wanted st.sessionID) := by
  have hsome : ∀ i, h.ident i ∈ st.accounts.map (wanted st.sessionID) → h'.ident i = h.ident i := by
    intro i hi
    obtain ⟨acc, -, hacc⟩ := List.mem_map.mp hi
    exact (ident_stepped hstep hacc.symm).trans hacc
  rw [← hown] at hsome ⊢
  congr 1
  · refine List.map_congr_left fun sub hsub => hsome _ (List.mem_append_left _ ?_)
    exact List.mem_map_of_mem hsub
  · rw [pending, pending]
    split
    · rfl
    · rename_i i rest hphase
      rw [hsome i (List.mem_append_right _ ?_)]
      simp [pending, hphase]
    · rfl

@[simp] theorem pending_next (rest : List String) (st : Stream) :
    h.pending { st with phase := .next rest } = rest.map (wanted st.sessionID) := by
  cases rest <;> rfl

theorem mem_waiting {ch : Nat} {e : MailboxEvent} :
    e ∈ h.waiting ch ↔ ∃ c, h.chans[ch]? = some c ∧ e ∈ c.queue := by
  rw [waiting]
  cases h.chans[ch]? <;> simp

/-- The event of a listener has its account on it. -/
theorem stamp_news (l : IdleListener) (numMessages now : Nat) :
    l.stamp (l.news numMessages now) = ⟨"NEW_MESSAGE", l.accountID, l.mailbox, numMessages, now⟩ := by
  by_cases hacc : l.accountID = ""
  · simp [IdleListener.stamp, IdleListener.news, hacc]
  · simp [IdleListener.stamp, IdleListener.news, hacc]

/-- The channels after a broadcast. -/
theorem waiting_broadcast {l : IdleListener} {event : MailboxEvent}
    (hsent : h.broadcast l event = .ok h') (ch : Nat)
    (hch : ch ∈ l.subscribers → h.wires.shut ch ≠ none) :
    h'.waiting ch =
      if ch ∈ l.subscribers then offer chanSize (h.waiting ch) (l.stamp event) else h.waiting ch := by
  rw [broadcast] at hsent
  split at hsent
  · cases hsent
  · obtain rfl := Except.ok.inj hsent
    simp only [waiting, List.getElem?_mapIdx]
    cases hc : h.chans[ch]? with
    | none =>
      rw [if_neg fun hin => hch hin (by simp [wires, hc])]
      rfl
    | some c =>
      simp only [Option.map_some, Option.elim_some]
      split <;> rfl

end Hub

/-! ## What a client is told -/

/-- The news of a listener in an action. -/
def announced (i : Nat) (acc : String) : Action → List MailboxEvent
  | .update j numMessages now => if j = i then [⟨"NEW_MESSAGE", acc, "INBOX", numMessages, now⟩] else []
  | _ => []

theorem accountID_announced {i : Nat} {acc : String} {a : Action} {e : MailboxEvent}
    (he : e ∈ announced i acc a) :
    e.accountID = acc := by
  cases a with
  | update j numMessages now =>
    rw [announced] at he
    split at he
    · rw [List.mem_singleton.mp he]
    · exact absurd he List.not_mem_nil
  | _ => exact absurd he List.not_mem_nil

namespace Hub

/-- The client's end of a channel, and what waits in it. -/
def ends (h : Hub) (s : Nat) (acc : String) (ch : Nat) : Ends MailboxEvent := ⟨h.told s acc, h.waiting ch⟩

/-- There is room for the news of the action, if it has any for this subscription. -/
def Roomy (h : Hub) (sub : Subscription) (a : Action) : Prop :=
  ∀ numMessages now, a = .update sub.listener numMessages now → (h.waiting sub.chan).length < chanSize

/-- The uses of a channel in an action. -/
structure Moved (h h' : Hub) (s : Nat) (acc : String) (sub : Subscription) (a : Action)
    (uses : List (Use MailboxEvent)) : Prop where
  ends : h'.ends s acc sub.chan = (h.ends s acc sub.chan).after chanSize uses
  puts : (puts uses).Sublist (announced sub.listener acc a)
  all : sub ∈ h'.wires.live s → BoundedQueue.puts uses = announced sub.listener acc a
  room : sub ∈ h'.wires.live s → (HasRoom chanSize (h.ends s acc sub.chan) uses ↔ h.Roomy sub a)

variable {W W' : Wires} {h h' : Hub} {a : Action} {s s' i : Nat} {sub : Subscription}
  {acc id : String} {st : Stream}

theorem Moved.still (hquiet : ∀ numMessages now, a ≠ .update sub.listener numMessages now)
    (htold : h'.told s acc = h.told s acc) (hwaiting : h'.waiting sub.chan = h.waiting sub.chan) :
    h.Moved h' s acc sub a [] := by
  have hnone : announced sub.listener acc a = [] := by
    cases a with
    | update j numMessages now => exact if_neg fun hj => hquiet numMessages now (by rw [hj])
    | _ => rfl
  refine ⟨?_, ?_, fun _ => ?_, fun _ => ?_⟩
  · rw [Hub.ends, htold, hwaiting]
    rfl
  · rw [hnone]
    exact List.Sublist.refl _
  · rw [hnone, puts_nil]
  · exact iff_of_true (hasRoom_nil _) fun numMessages now ha => absurd ha (hquiet numMessages now)

theorem told_setStream (hst : h.streams[s']? = some st) (s : Nat) (acc : String) (st' : Stream) :
    (h.setStream s' st').told s acc =
      if s = s' then st'.sent.filter (·.accountID == acc) else h.told s acc := by
  rw [told, setStream]
  split
  · rename_i heq
    rw [heq, List.getElem?_set_self (List.getElem?_eq_some_iff.mp hst).1, Option.elim_some]
  · rename_i hne
    rw [List.getElem?_set_ne (Ne.symm hne), told]

theorem told_setStream_same (hst : h.streams[s']? = some st) (s : Nat) (acc : String) {st' : Stream}
    (hsent : st'.sent = st.sent) :
    (h.setStream s' st').told s acc = h.told s acc := by
  rw [told_setStream hst s acc st']
  split
  · rename_i heq
    rw [heq, told, hst, Option.elim_some, hsent]
  · rfl

theorem told_eq (hst : h.streams[s]? = some st) : h.told s acc = st.sent.filter (·.accountID == acc) := by
  rw [told, hst, Option.elim_some]

/-- The subscriptions of a stream are to different listeners. -/
theorem ident_ne (hR : Routed h) (hst : h.streams[s]? = some st) {sub' : Subscription}
    (hsub : sub ∈ st.subscriptions)
    (hsub' : sub' ∈ st.subscriptions) (hne : sub' ≠ sub) : h.ident sub'.listener ≠ h.ident sub.listener := by
  intro heq
  have hmem := List.mem_of_getElem? hst
  have hinj : Function.Injective (wanted st.sessionID) := fun acc acc' hacc => by
    simpa [wanted] using hacc
  have hnodup : (st.subscriptions.map fun sub => h.ident sub.listener).Nodup := by
    have hall := (hR.streams st hmem).2.map hinj
    rw [← hR.own st hmem] at hall
    exact (List.nodup_append.mp hall).1
  exact hne (List.inj_on_of_nodup_map hnodup hsub' hsub heq)

/-- A subscription is to a listener of its session, for one of its accounts. -/
theorem ident_of_had (hR : Routed h) (hst : h.streams[s]? = some st) (hsub : sub ∈ st.subscriptions) :
    ∃ acc ∈ st.accounts, h.ident sub.listener = wanted st.sessionID acc := by
  have hin : h.ident sub.listener ∈ st.accounts.map (wanted st.sessionID) := by
    rw [← hR.own st (List.mem_of_getElem? hst)]
    exact List.mem_append_left _ (List.mem_map_of_mem hsub)
  obtain ⟨acc, hacc, heq⟩ := List.mem_map.mp hin
  exact ⟨acc, hacc, heq.symm⟩

/-- A turn of the loop. -/
theorem moved_poll (hW : h.wires.Wired) (hR : Routed h) (hsub : sub ∈ h.wires.had s)
    (hid : h.ident sub.listener = wanted id acc) {next : Nat} {sub' : Subscription} {c : EventChan}
    (hst : h.streams[s']? = some st) (hsub' : st.subscriptions[next]? = some sub')
    (hc : h.chans[sub'.chan]? = some c)
    (phase : Phase) :
    ∃ uses, h.Moved (Hub.setStream { h with chans := h.chans.set sub'.chan { c with queue := c.queue.tail } } s'
      { st with phase := phase, sent := st.sent ++ c.queue.head?.toList }) s acc sub (.poll s') uses := by
  have hhad : sub' ∈ h.wires.had s' := by
    rw [had_eq hst]
    exact List.mem_of_getElem? hsub'
  have hqueue : h.waiting sub'.chan = c.queue := by simp [waiting, hc]
  have hquiet : ∀ numMessages now, Action.poll s' ≠ .update sub.listener numMessages now := nofun
  have hlt := (List.getElem?_eq_some_iff.mp hc).1
  -- whether it is the channel of the subscription that is looked at
  by_cases hsame : sub' = sub
  · subst hsame
    obtain ⟨rfl, -⟩ := hW.once hsub hhad rfl
    have hmine : c.queue.head?.toList.filter (·.accountID == acc) = c.queue.head?.toList := by
      refine List.filter_eq_self.mpr fun e he => ?_
      have hein : e ∈ h.waiting sub'.chan := hqueue ▸ List.mem_of_mem_head? (Option.mem_toList.mp he)
      obtain ⟨id', hid'⟩ := hR.named hsub hein
      have heq := hid'.symm.trans hid
      simp only [wanted, Option.some.injEq, Prod.mk.injEq] at heq
      exact beq_iff_eq.mpr heq.2.1
    refine ⟨[.take], ?_, List.nil_sublist _, fun _ => rfl, fun _ => ?_⟩
    · have htold := told_setStream (h := { h with chans := h.chans.set sub'.chan { c with queue := c.queue.tail } }) hst
        s acc { st with phase := phase, sent := st.sent ++ c.queue.head?.toList }
      rw [if_pos rfl, List.filter_append, hmine, ← told_eq hst] at htold
      have hwaiting : (Hub.setStream { h with chans := h.chans.set sub'.chan { c with queue := c.queue.tail } } s
          { st with phase := phase, sent := st.sent ++ c.queue.head?.toList }).waiting sub'.chan = c.queue.tail := by
        simp [waiting, setStream, List.getElem?_set_self hlt]
      rw [Hub.ends, htold, hwaiting, Hub.ends, hqueue]
      rfl
    · rw [hasRoom_take]
      exact iff_of_true (hasRoom_nil _) fun numMessages now ha => absurd ha (hquiet numMessages now)
  · have hchan : sub'.chan ≠ sub.chan := fun heq => hsame (hW.once hhad hsub heq).2
    refine ⟨[], Moved.still hquiet ?_ ?_⟩
    · rw [told_setStream (h := { h with chans := h.chans.set sub'.chan { c with queue := c.queue.tail } }) hst s acc]
      split
      · rename_i heq
        subst heq
        rw [had_eq hst] at hsub
        have hother : c.queue.head?.toList.filter (·.accountID == acc) = [] := by
          refine List.filter_eq_nil_iff.mpr fun e he hacc => ?_
          have hein : e ∈ h.waiting sub'.chan := hqueue ▸ List.mem_of_mem_head? (Option.mem_toList.mp he)
          obtain ⟨id', hid'⟩ := hR.named hhad hein
          obtain ⟨acc₁, -, hid₁⟩ := ident_of_had hR hst hsub
          obtain ⟨acc₂, -, hid₂⟩ := ident_of_had hR hst (List.mem_of_getElem? hsub')
          have h₁ := hid₁.symm.trans hid
          have h₂ := hid₂.symm.trans hid'
          simp only [wanted, Option.some.injEq, Prod.mk.injEq] at h₁ h₂
          refine ident_ne hR hst hsub (List.mem_of_getElem? hsub') hsame ?_
          rw [hid₁, hid₂, h₁.2.1, h₂.2.1, beq_iff_eq.mp hacc]
        rw [List.filter_append, hother, List.append_nil, ← told_eq hst]
      · rfl
    · simp [waiting, setStream, List.getElem?_set_ne hchan]

theorem told_getOrStartListener (sessionID accountID : String) :
    (h.getOrStartListener sessionID accountID).2.told s acc = h.told s acc := by
  rw [getOrStartListener]
  split <;> rfl

theorem waiting_getOrStartListener (sessionID accountID : String) (ch : Nat) :
    (h.getOrStartListener sessionID accountID).2.waiting ch = h.waiting ch := by
  rw [getOrStartListener]
  split <;> rfl

theorem streams_getOrStartListener (sessionID accountID : String) :
    (h.getOrStartListener sessionID accountID).2.streams = h.streams := by
  rw [getOrStartListener]
  split <;> rfl

/-- A stream that has subscribed to something is there. -/
theorem exists_of_had (hsub : sub ∈ h.wires.had s) :
    ∃ st, h.streams[s]? = some st ∧ sub ∈ st.subscriptions := by
  rw [wires] at hsub
  cases hst : h.streams[s]? with
  | none => simp [hst] at hsub
  | some st => exact ⟨st, rfl, by simpa [hst] using hsub⟩

theorem chan_lt (hW : h.wires.Wired) (hsub : sub ∈ h.wires.had s) : sub.chan < h.chans.length := by
  by_contra hge
  exact hW.known hsub (by simp [wires, List.getElem?_eq_none (Nat.le_of_not_lt hge)])

/-- A listener announces its news to those who have subscribed to it. -/
theorem moved_update (hW : h.wires.Wired) (hsub : sub ∈ h.wires.had s)
    (hid : h.ident sub.listener = wanted id acc) {l : IdleListener} {numMessages now : Nat}
    (hl : h.listeners[i]? = some l) (hsent : h.broadcast l (l.news numMessages now) = .ok h') :
    ∃ uses, h.Moved h' s acc sub (.update i numMessages now) uses := by
  have htold : h'.told s acc = h.told s acc := by
    rw [broadcast] at hsent
    split at hsent
    · cases hsent
    · exact Except.ok.inj hsent ▸ rfl
  have hwaiting := waiting_broadcast hsent sub.chan fun _ => hW.known hsub
  by_cases hi : i = sub.listener
  · subst hi
    have hevent : l.stamp (l.news numMessages now) = ⟨"NEW_MESSAGE", acc, "INBOX", numMessages, now⟩ := by
      rw [ident, hl, Option.map_some, wanted] at hid
      simp only [Option.some.injEq, Prod.mk.injEq] at hid
      rw [stamp_news, hid.2.1, hid.2.2]
    rw [hevent] at hwaiting
    have hannounced : announced sub.listener acc (.update sub.listener numMessages now) =
        [⟨"NEW_MESSAGE", acc, "INBOX", numMessages, now⟩] := if_pos rfl
    -- whether the subscription has been given up already
    by_cases hin : sub.chan ∈ l.subscribers
    · rw [if_pos hin] at hwaiting
      refine ⟨[.put ⟨"NEW_MESSAGE", acc, "INBOX", numMessages, now⟩], ?_, ?_,
        fun _ => hannounced.symm, fun _ => ?_⟩
      · rw [Hub.ends, htold, hwaiting]
        rfl
      · rw [hannounced]
        exact List.Sublist.refl _
      · rw [hasRoom_put, and_iff_left (hasRoom_nil _)]
        refine ⟨fun hroom _ _ _ => hroom, fun hroom => hroom numMessages now rfl⟩
    · rw [if_neg hin] at hwaiting
      have hdead : sub ∉ h'.wires.live s := by
        rw [wires_broadcast hsent]
        exact fun hlive => hin (subs_eq hl ▸ hW.live_joined hlive)
      refine ⟨[], ?_, List.nil_sublist _, fun hlive => absurd hlive hdead, fun hlive => absurd hlive hdead⟩
      rw [Hub.ends, htold, hwaiting]
      rfl
  · have hin : sub.chan ∉ l.subscribers := by
      intro hin
      obtain ⟨s', hlive⟩ := hW.joined (subs_eq hl ▸ hin)
      exact hi (congrArg Subscription.listener (hW.once (hW.live_had hlive) hsub rfl).2)
    rw [if_neg hin] at hwaiting
    refine ⟨[], Moved.still (fun n t heq => ?_) htold hwaiting⟩
    exact hi (Action.update.inj heq).1

/-- The uses of a channel in one step. -/
theorem moved_step (hW : h.wires.Wired) (hR : Routed h) (hsub : sub ∈ h.wires.had s)
    (hid : h.ident sub.listener = wanted id acc) (hstep : Stepped h a h') :
    ∃ uses, h.Moved h' s acc sub a uses := by
  have hlt := chan_lt hW hsub
  cases hstep with
  | start sid aid =>
    exact ⟨[], .still nofun (told_getOrStartListener sid aid) (waiting_getOrStartListener sid aid _)⟩
  | connect sid accounts =>
    obtain ⟨st, hst, -⟩ := exists_of_had hsub
    refine ⟨[], .still nofun ?_ rfl⟩
    rw [told, List.getElem?_append_left (List.getElem?_eq_some_iff.mp hst).1, told]
  | @listen _ st accountID _ hst =>
    rw [← streams_getOrStartListener st.sessionID accountID] at hst
    exact ⟨[], .still nofun ((told_setStream_same hst s acc (by rfl)).trans (told_getOrStartListener ..))
      (waiting_getOrStartListener ..)⟩
  | subscribe hst =>
    refine ⟨[], .still nofun (told_setStream_same (h := h.subscribe _ _) hst s acc rfl) ?_⟩
    rw [waiting, setStream, Hub.subscribe, List.getElem?_append_left hlt, waiting]
  | idle => exact ⟨[], .still nofun rfl rfl⟩
  | poll hst _ hsub' hc => exact moved_poll hW hR hsub hid hst hsub' hc _
  | disconnect hst => exact ⟨[], .still nofun (told_setStream_same hst s acc rfl) rfl⟩
  | @unsubscribe _ _ sub' _ l c hst _ _ hc =>
    refine ⟨[], .still nofun (told_setStream_same (h := { h with
      listeners := h.listeners.set sub'.listener { l with subscribers := l.subscribers.erase sub'.chan }
      chans := h.chans.set sub'.chan { c with closed := true } }) hst s acc rfl) ?_⟩
    rw [waiting, setStream, waiting]
    by_cases hchan : sub'.chan = sub.chan
    · rw [hchan] at hc ⊢
      rw [List.getElem?_set_self hlt, hc]
      rfl
    · rw [List.getElem?_set_ne hchan]
  | update hl hsent => exact moved_update hW hsub hid hl hsent
  | stopListener => exact ⟨[], .still nofun rfl rfl⟩
  | stopSessionListeners => exact ⟨[], .still nofun rfl rfl⟩

/-! ## Whole runs -/

theorem had_stepped (hstep : Rewired W a W') (hsub : sub ∈ W.had s) : sub ∈ W'.had s := by
  cases hstep with
  | same => exact hsub
  | subscribe => exact Wires.mem_had_subscribe.mpr (.inl hsub)
  | unsubscribe => exact hsub

/-- A subscription is new, or it was there. -/
theorem had_before (hstep : Rewired W a W') (hsub : sub ∈ W'.had s) :
    sub ∈ W.had s ∨ a = .subscribe s ∧ W.shut sub.chan = none := by
  cases hstep with
  | same => exact .inl hsub
  | subscribe i hch =>
    obtain hsub | ⟨rfl, rfl⟩ := Wires.mem_had_subscribe.mp hsub
    · exact .inl hsub
    · exact .inr ⟨rfl, hch⟩
  | unsubscribe => exact .inl hsub

/-- What is live has been live since it was there. -/
theorem live_before (hW : W.Wired) (hstep : Rewired W a W') (hsub : sub ∈ W.had s) (hlive : sub ∈ W'.live s) :
    sub ∈ W.live s := by
  cases hstep with
  | same => exact hlive
  | subscribe i hch =>
    obtain hlive | ⟨rfl, rfl⟩ := Wires.mem_live_subscribe.mp hlive
    · exact hlive
    · exact absurd hch (hW.known hsub)
  | unsubscribe hrest => exact Wires.mem_live_unsubscribe hrest hlive

/-- Nothing waits in a new channel. -/
theorem waiting_new (hstep : Stepped h (.subscribe s) h') {ch : Nat} (hch : h.wires.shut ch = none) :
    h'.waiting ch = [] := by
  cases hstep with
  | subscribe =>
    have hge : h.chans.length ≤ ch := by
      by_contra hlt
      simp [wires, List.getElem?_eq_getElem (Nat.lt_of_not_le hlt)] at hch
    rw [waiting, setStream, Hub.subscribe, List.getElem?_append_right hge]
    cases ch - h.chans.length <;> rfl

theorem listeners_stepped (hproper : a.Proper) (hR : Routed h) (hstep : Stepped h a h') :
    ∀ l ∈ h'.listeners, ':' ∉ l.sessionID.toList ∧ l.mailbox = "INBOX" := by
  have hstart : ∀ {id acc : String}, ':' ∉ id.toList → ∀ l ∈ (h.getOrStartListener id acc).2.listeners,
      ':' ∉ l.sessionID.toList ∧ l.mailbox = "INBOX" := by
    intro id acc hid l hl
    rw [getOrStartListener] at hl
    split at hl
    · exact hR.listeners l hl
    · rcases List.mem_append.mp hl with hl | hl
      · exact hR.listeners l hl
      · obtain rfl := List.mem_singleton.mp hl
        exact ⟨hid, rfl⟩
  have hset : ∀ {i : Nat} {l l' : IdleListener}, h.listeners[i]? = some l → l'.sessionID = l.sessionID →
      l'.mailbox = l.mailbox →
      ∀ k ∈ h.listeners.set i l', ':' ∉ k.sessionID.toList ∧ k.mailbox = "INBOX" := by
    intro i l l' hl hsession hmailbox k hk
    rcases List.mem_or_eq_of_mem_set hk with hk | rfl
    · exact hR.listeners k hk
    · rw [hsession, hmailbox]
      exact hR.listeners l (List.mem_of_getElem? hl)
  have hstop : ∀ (q : IdleListener → Bool), ∀ l ∈ (h.stopListeners q).listeners,
      ':' ∉ l.sessionID.toList ∧ l.mailbox = "INBOX" := by
    intro q l hl
    obtain ⟨k, hk, rfl⟩ := List.mem_map.mp hl
    split <;> exact hR.listeners k hk
  cases hstep with
  | start => exact hstart hproper
  | connect => exact hR.listeners
  | listen hst => exact hstart (hR.streams _ (List.mem_of_getElem? hst)).1
  | subscribe hst hphase hl => exact hset hl rfl rfl
  | idle => exact hR.listeners
  | poll => exact hR.listeners
  | disconnect => exact hR.listeners
  | unsubscribe hst hphase hl => exact hset hl rfl rfl
  | update hl hsent =>
    rw [broadcast] at hsent
    split at hsent
    · cases hsent
    · exact Except.ok.inj hsent ▸ hR.listeners
  | stopListener => exact hstop _
  | stopSessionListeners => exact hstop _

/-- What holds of a stream in itself. -/
def Served (h : Hub) (st : Stream) : Prop :=
  (':' ∉ st.sessionID.toList ∧ st.accounts.Nodup) ∧
    st.subscriptions.map (fun sub => h.ident sub.listener) ++ h.pending st =
      st.accounts.map (wanted st.sessionID)

theorem served_stepped (hproper : a.Proper) (hR : Routed h) (hstep : Stepped h a h') :
    ∀ st ∈ h'.streams, Served h' st := by
  have hserved : ∀ st ∈ h.streams, Served h' st := fun st hst =>
    ⟨hR.streams st hst, own_stepped hstep (hR.own st hst)⟩
  have hset : ∀ {s : Nat} {st st' : Stream}, h.streams[s]? = some st → (Served h' st → Served h' st') →
      ∀ k ∈ h.streams.set s st', Served h' k := by
    intro s st st' hst hsame k hk
    rcases List.mem_or_eq_of_mem_set hk with hk | rfl
    · exact hserved k hk
    · exact hsame (hserved st (List.mem_of_getElem? hst))
  cases hstep with
  | start => rwa [streams_getOrStartListener]
  | connect sid accounts =>
    intro st hst
    rcases List.mem_append.mp hst with hst | hst
    · exact hserved st hst
    · obtain rfl := List.mem_singleton.mp hst
      refine ⟨hproper, ?_⟩
      cases accounts <;> rfl
  | @listen s st acc rest hst hphase =>
    intro k hk
    rw [setStream, streams_getOrStartListener] at hk
    refine hset hst ?_ k hk
    intro hsame
    refine ⟨hsame.1, ?_⟩
    have hown := hsame.2
    have hident : (h.getOrStartListener st.sessionID acc).2.ident (h.getOrStartListener st.sessionID acc).1 =
        wanted st.sessionID acc := ident_getOrStartListener hR (hR.streams st (List.mem_of_getElem? hst)).1
    simp only [pending, hphase, List.map_cons] at hown ⊢
    rw [← hown, ← hident]
    rfl
  | @subscribe s i st l rest hst hphase hl =>
    refine hset hst fun hsame => ⟨hsame.1, ?_⟩
    have hown := hsame.2
    simp only [pending, hphase] at hown
    rw [← hown, List.map_append, List.append_assoc]
    congr 1
    cases rest <;> rfl
  | idle => exact hserved
  | @poll s next st sub c hst hphase =>
    refine hset hst fun hsame => ⟨hsame.1, ?_⟩
    have hown := hsame.2
    rwa [pending, hphase] at hown
  | @disconnect s st hst hphase =>
    refine hset hst fun hsame => ⟨hsame.1, ?_⟩
    have hown := hsame.2
    rwa [pending, hphase] at hown
  | @unsubscribe s st sub rest l c hst hphase =>
    refine hset hst fun hsame => ⟨hsame.1, ?_⟩
    have hown := hsame.2
    rwa [pending, hphase] at hown
  | @update i l k numMessages now hl hsent =>
    have hstreams : h'.streams = h.streams := by
      rw [broadcast] at hsent
      split at hsent
      · cases hsent
      · exact Except.ok.inj hsent ▸ rfl
    rwa [hstreams]
  | stopListener => exact hserved
  | stopSessionListeners => exact hserved

theorem routed_stepped (hproper : a.Proper) (hW : h.wires.Wired) (hR : Routed h) (hstep : Stepped h a h') :
    Routed h' where
  listeners := listeners_stepped hproper hR hstep
  streams st hst := (served_stepped hproper hR hstep st hst).1
  own st hst := (served_stepped hproper hR hstep st hst).2
  named {s sub e} hsub he := by
    obtain hsub | ⟨rfl, hch⟩ := had_before (rewired hstep) hsub
    · obtain ⟨st, hst, hin⟩ := exists_of_had hsub
      obtain ⟨acc, -, hid⟩ := ident_of_had hR hst hin
      obtain ⟨uses, hmoved⟩ := moved_step hW hR hsub hid hstep
      have hwaiting : h'.waiting sub.chan = ((h.ends s acc sub.chan).after chanSize uses).waiting :=
        congrArg Ends.waiting hmoved.ends
      rcases mem_waiting_after (hwaiting ▸ he) with hold | hput
      · obtain ⟨id, hold⟩ := hR.named hsub hold
        exact ⟨id, ident_stepped hstep hold⟩
      · have hacc := accountID_announced (hmoved.puts.subset hput)
        exact ⟨st.sessionID, hacc ▸ ident_stepped hstep hid⟩
    · rw [waiting_new hstep hch] at he
      exact absurd he List.not_mem_nil

/-- What has been written to a client came from the listeners it has subscribed to, and nothing has been
written before that is done. -/
structure Settled (h : Hub) (st : Stream) : Prop where
  unsent : h.pending st ≠ [] → st.sent = []
  own : ∀ e ∈ st.sent, ∃ sub ∈ st.subscriptions, h.ident sub.listener = wanted st.sessionID e.accountID

theorem pending_ne_stepped (hp : h'.pending st ≠ []) : h.pending st ≠ [] := by
  rw [pending] at hp ⊢
  split at hp
  · exact hp
  · exact List.cons_ne_nil _ _
  · exact absurd rfl hp

/-- The next event of a channel is one of its listener. -/
theorem own_poll (hR : Routed h) {c : EventChan} {e : MailboxEvent} (hst : h.streams[s]? = some st)
    (hsub : sub ∈ st.subscriptions) (hc : h.chans[sub.chan]? = some c) (he : e ∈ c.queue) :
    h.ident sub.listener = wanted st.sessionID e.accountID := by
  have hhad : sub ∈ h.wires.had s := by rwa [had_eq hst]
  obtain ⟨id, hid⟩ := hR.named hhad (mem_waiting.mpr ⟨c, hc, he⟩)
  obtain ⟨acc, -, hacc⟩ := ident_of_had hR hst hsub
  have heq := hid.symm.trans hacc
  simp only [wanted, Option.some.injEq, Prod.mk.injEq] at heq
  rw [hid, heq.1]

theorem settled_stepped (hR : Routed h) (hS : ∀ st ∈ h.streams, Settled h st)
    (hstep : Stepped h a h') : ∀ st ∈ h'.streams, Settled h' st := by
  have hown : ∀ st ∈ h.streams, ∀ e ∈ st.sent, ∃ sub ∈ st.subscriptions,
      h'.ident sub.listener = wanted st.sessionID e.accountID := by
    intro st hst e he
    obtain ⟨sub, hsub, hid⟩ := (hS st hst).own e he
    exact ⟨sub, hsub, ident_stepped hstep hid⟩
  have hold : ∀ st ∈ h.streams, Settled h' st := fun st hst =>
    ⟨fun hp => (hS st hst).unsent (pending_ne_stepped hp), hown st hst⟩
  have hset : ∀ {s : Nat} {st st' : Stream}, h.streams[s]? = some st → (Settled h' st → Settled h' st') →
      ∀ k ∈ h.streams.set s st', Settled h' k := by
    intro s st st' hst hsame k hk
    rcases List.mem_or_eq_of_mem_set hk with hk | rfl
    · exact hold k hk
    · exact hsame (hold st (List.mem_of_getElem? hst))
  cases hstep with
  | start => rwa [streams_getOrStartListener]
  | connect =>
    intro st hst
    rcases List.mem_append.mp hst with hst | hst
    · exact hold st hst
    · obtain rfl := List.mem_singleton.mp hst
      exact ⟨fun _ => rfl, fun e he => absurd he List.not_mem_nil⟩
  | @listen s st acc rest hst hphase =>
    intro k hk
    rw [setStream, streams_getOrStartListener] at hk
    refine hset hst ?_ k hk
    intro hsame
    exact ⟨fun _ => (hS st (List.mem_of_getElem? hst)).unsent (by simp [pending, hphase]), hsame.own⟩
  | @subscribe s i st l rest hst hphase =>
    refine hset hst fun hsame => ?_
    have hnone := (hS st (List.mem_of_getElem? hst)).unsent (by simp [pending, hphase])
    exact ⟨fun _ => hnone, fun e he => absurd (hnone ▸ he) List.not_mem_nil⟩
  | idle => exact hold
  | @poll s next st sub c hst hphase hsub hc =>
    refine hset hst fun hsame => ⟨fun hp => absurd rfl hp, fun e he => ?_⟩
    rcases List.mem_append.mp he with he | he
    · exact hsame.own e he
    · have hin := List.mem_of_getElem? hsub
      have hid := own_poll hR hst hin hc (List.mem_of_mem_head? (Option.mem_toList.mp he))
      exact ⟨sub, hin, hid⟩
  | disconnect hst => exact hset hst fun hsame => ⟨fun hp => absurd rfl hp, hsame.own⟩
  | unsubscribe hst => exact hset hst fun hsame => ⟨fun hp => absurd rfl hp, hsame.own⟩
  | update hl hsent =>
    rw [broadcast] at hsent
    split at hsent
    · cases hsent
    · obtain rfl := Except.ok.inj hsent
      exact hold
  | stopListener => exact hold
  | stopSessionListeners => exact hold

/-- What holds between the steps of every run. -/
structure Good (h : Hub) : Prop where
  wired : h.wires.Wired
  routed : h.Routed
  settled : ∀ st ∈ h.streams, Settled h st

theorem good_empty : Good .empty where
  wired := wired_empty
  routed := {
    listeners := fun l hl => absurd hl List.not_mem_nil
    streams := fun st hst => absurd hst List.not_mem_nil
    own := fun st hst => absurd hst List.not_mem_nil
    named := fun hsub => by simp [Hub.empty, wires] at hsub }
  settled st hst := absurd hst List.not_mem_nil

theorem good_stepped (hproper : a.Proper) (hG : Good h) (hstep : Stepped h a h') : Good h' where
  wired := wired_of_rewired hG.wired (rewired hstep)
  routed := routed_stepped hproper hG.wired hG.routed hstep
  settled := settled_stepped hG.routed hG.settled hstep

variable {acts : List Action} {h₂ : Hub}

theorem good_run (hproper : ∀ a ∈ acts, a.Proper) (hG : Good h) (hrun : h.run acts = some (.ok h')) :
    Good h' := by
  induction acts generalizing h with
  | nil => exact Except.ok.inj (Option.some.inj hrun) ▸ hG
  | cons a acts ih =>
    obtain ⟨h₁, hstep, hrest⟩ := run_cons hrun
    obtain ⟨ha, hacts⟩ := List.forall_mem_cons.mp hproper
    exact ih hacts (good_stepped ha hG (stepped_of_step hstep)) hrest

theorem ident_run {x : Ident} (hrun : h.run acts = some (.ok h')) (hi : h.ident i = some x) :
    h'.ident i = some x := by
  induction acts generalizing h with
  | nil => exact Except.ok.inj (Option.some.inj hrun) ▸ hi
  | cons a acts ih =>
    obtain ⟨h₁, hstep, hrest⟩ := run_cons hrun
    exact ih hrest (ident_stepped (stepped_of_step hstep) hi)

/-- The news of a listener in a run. -/
def news (i : Nat) (acc : String) (acts : List Action) : List MailboxEvent := acts.flatMap (announced i acc)

/-- Whenever the listener of a subscription has news there are fewer than twenty waiting. -/
def RoomyRun (h : Hub) (sub : Subscription) (acts : List Action) : Prop :=
  ∀ before a rest hub, acts = before ++ a :: rest → h.run before = some (.ok hub) → hub.Roomy sub a

theorem roomyRun_cons {h₁ : Hub} (hstep : h.step a = some (.ok h₁)) :
    h.RoomyRun sub (a :: acts) ↔ h.Roomy sub a ∧ h₁.RoomyRun sub acts := by
  refine ⟨fun hroomy => ⟨hroomy [] a acts h rfl rfl, fun before b rest hub hsplit hrun => ?_⟩, ?_⟩
  · refine hroomy (a :: before) b rest hub (by rw [hsplit, List.cons_append]) ?_
    rw [run, hstep]
    exact hrun
  · rintro ⟨hfirst, hrest⟩ before b rest hub hsplit hrun
    cases before with
    | nil =>
      obtain ⟨rfl, rfl⟩ := List.cons.inj hsplit
      exact Except.ok.inj (Option.some.inj hrun) ▸ hfirst
    | cons a' before =>
      obtain ⟨rfl, rfl⟩ := List.cons.inj hsplit
      obtain ⟨h₂, hstep', hrun⟩ := run_cons hrun
      obtain rfl := Except.ok.inj (Option.some.inj (hstep.symm.trans hstep'))
      exact hrest before b rest hub rfl hrun

/-- The uses of the channel of a subscription in a run. -/
theorem moved_run (hproper : ∀ a ∈ acts, a.Proper) (hG : Good h) (hsub : sub ∈ h.wires.had s)
    (hid : h.ident sub.listener = wanted id acc) (hrun : h.run acts = some (.ok h')) :
    ∃ uses, h'.ends s acc sub.chan = (h.ends s acc sub.chan).after chanSize uses ∧
      (puts uses).Sublist (news sub.listener acc acts) ∧
      (sub ∈ h'.wires.live s → sub ∈ h.wires.live s ∧ puts uses = news sub.listener acc acts ∧
        (HasRoom chanSize (h.ends s acc sub.chan) uses ↔ h.RoomyRun sub acts)) := by
  induction acts generalizing h with
  | nil =>
    obtain rfl := Except.ok.inj (Option.some.inj hrun)
    refine ⟨[], rfl, List.Sublist.refl _, fun hlive => ⟨hlive, rfl, iff_of_true (hasRoom_nil _) ?_⟩⟩
    intro before a rest hub hsplit
    simp at hsplit
  | cons a acts ih =>
    obtain ⟨h₁, hstep, hrest⟩ := run_cons hrun
    obtain ⟨ha, hacts⟩ := List.forall_mem_cons.mp hproper
    have hstepped := stepped_of_step hstep
    obtain ⟨first, hfirst⟩ := moved_step hG.wired hG.routed hsub hid hstepped
    obtain ⟨uses, hends, hputs, hlive⟩ :=
      ih hacts (good_stepped ha hG hstepped) (had_stepped (rewired hstepped) hsub)
      (ident_stepped hstepped hid) hrest
    refine ⟨first ++ uses, ?_, ?_, fun hend => ?_⟩
    · rw [hends, hfirst.ends, after_append]
    · rw [puts_append]
      exact hfirst.puts.append hputs
    · obtain ⟨hmid, hall, hroom⟩ := hlive hend
      refine ⟨live_before hG.wired (rewired hstepped) hsub hmid, ?_, ?_⟩
      · rw [puts_append, hfirst.all hmid, hall]
        rfl
      · rw [hasRoom_append, hfirst.room hmid, ← hfirst.ends, hroom, roomyRun_cons hstep]

/-- What a new subscription is. -/
theorem subscribed (hG : Good h) (hstep : Stepped h (.subscribe s) h') :
    ∃ sub id acc, h'.wires.had s = h.wires.had s ++ [sub] ∧ (h'.streams[s]?).map (·.sessionID) = some id ∧
      h'.ident sub.listener = wanted id acc ∧ h'.ends s acc sub.chan = ⟨[], []⟩ := by
  have hstepped := hstep
  cases hstep with
  | @subscribe _ i st l rest hst hphase hl =>
    have hmem := List.mem_of_getElem? hst
    have hpending : h.pending st = h.ident i :: rest.map (wanted st.sessionID) := by rw [pending, hphase]
    have hin : h.ident i ∈ st.accounts.map (wanted st.sessionID) := by
      rw [← hG.routed.own st hmem, hpending]
      exact List.mem_append_right _ List.mem_cons_self
    obtain ⟨acc, -, hacc⟩ := List.mem_map.mp hin
    have hst' : ((h.subscribe i l).setStream s { st with
        phase := .next rest, subscriptions := st.subscriptions ++ [⟨i, h.chans.length⟩] }).streams[s]? =
        some { st with phase := .next rest, subscriptions := st.subscriptions ++ [⟨i, h.chans.length⟩] } :=
      List.getElem?_set_self (List.getElem?_eq_some_iff.mp hst).1
    have hnone := (hG.settled st hmem).unsent (by rw [hpending]; exact List.cons_ne_nil _ _)
    refine ⟨⟨i, h.chans.length⟩, st.sessionID, acc, ?_, ?_, ident_stepped hstepped hacc.symm, ?_⟩
    · rw [had_eq hst', had_eq hst]
    · rw [hst']
      rfl
    · rw [Hub.ends, told_eq hst', waiting_new hstepped (by simp [wires]), hnone]
      rfl

/-- The uses of a new channel since the client has subscribed. -/
theorem since_subscribed (hG : Good h) (hstep : h.step (.subscribe s) = some (.ok h₂))
    (hproper : ∀ a ∈ acts, a.Proper) (hrun : h₂.run acts = some (.ok h')) :
    ∃ sub id acc uses, h₂.wires.had s = h.wires.had s ++ [sub] ∧
      (h₂.streams[s]?).map (·.sessionID) = some id ∧ h₂.ident sub.listener = wanted id acc ∧
      h'.told s acc ++ h'.waiting sub.chan = (Ends.after chanSize ⟨[], []⟩ uses).all ∧
      (puts uses).Sublist (news sub.listener acc acts) ∧
      (sub ∈ h'.wires.live s → puts uses = news sub.listener acc acts ∧
        (HasRoom chanSize ⟨[], []⟩ uses ↔ h₂.RoomyRun sub acts)) := by
  have hstepped := stepped_of_step hstep
  obtain ⟨sub, id, acc, hhad, hsession, hid, hempty⟩ := subscribed hG hstepped
  have hsub : sub ∈ h₂.wires.had s := by
    rw [hhad]
    exact List.mem_append_right _ List.mem_cons_self
  have hproper' : Action.Proper (.subscribe s) := trivial
  obtain ⟨uses, hends, hputs, hlive⟩ := moved_run hproper (good_stepped hproper' hG hstepped) hsub hid hrun
  rw [hempty] at hends hlive
  exact ⟨sub, id, acc, uses, hhad, hsession, hid, congrArg Ends.all hends, hputs, fun hend => (hlive hend).2⟩

/-- **What a client is told of an account** in any run is the news of the account's listener since the
client has subscribed to it, in order and each at most once; with what waits for it, it is all of the
news if and only if there were never twenty waiting when news came. -/
theorem delivered {before after : List Action} {h₁ h₂ h₃ : Hub} (hproper : ∀ a ∈ before ++ after, a.Proper)
    (hbefore : Hub.empty.run before = some (.ok h₁)) (hstep : h₁.step (.subscribe s) = some (.ok h₂))
    (hafter : h₂.run after = some (.ok h₃)) :
    ∃ sub id acc, h₂.wires.had s = h₁.wires.had s ++ [sub] ∧ (h₂.streams[s]?).map (·.sessionID) = some id ∧
      h₂.ident sub.listener = wanted id acc ∧
      (h₃.told s acc ++ h₃.waiting sub.chan).Sublist (news sub.listener acc after) ∧
      (sub ∈ h₃.wires.live s →
        (h₃.told s acc ++ h₃.waiting sub.chan = news sub.listener acc after ↔ h₂.RoomyRun sub after)) := by
  obtain ⟨hold, hnew⟩ := List.forall_mem_append.mp hproper
  have hG := good_run hold good_empty hbefore
  obtain ⟨sub, id, acc, uses, hhad, hsession, hid, hall, hputs, hlive⟩ :=
    since_subscribed hG hstep hnew hafter
  refine ⟨sub, id, acc, hhad, hsession, hid, ?_, fun hend => ?_⟩
  · rw [hall]
    exact (sublist_puts chanSize ⟨[], []⟩ uses).trans hputs
  · obtain ⟨hnews, hroom⟩ := hlive hend
    rw [hall, ← hnews, ← hroom]
    exact eq_puts_iff ⟨[], []⟩ uses

/-- The client is about to subscribe to its only account. -/
def newcomer : Hub :=
  ⟨[⟨"s", "a", "INBOX", [], false⟩], [], [⟨"s", ["a"], .subscribing 0 [], [], []⟩]⟩

/-- And has been told what came then. -/
def informed : Hub :=
  ⟨[⟨"s", "a", "INBOX", [0], false⟩], [⟨[], false⟩],
    [⟨"s", ["a"], .polling 0, [⟨0, 0⟩], [⟨"NEW_MESSAGE", "a", "INBOX", 3, 7⟩]⟩]⟩

theorem delivered_informed : ∃ (h₂ : Hub) (sub : Subscription) (id acc : String),
    newcomer.step (.subscribe 0) = some (.ok h₂) ∧ h₂.ident sub.listener = wanted id acc ∧
    (informed.told 0 acc ++ informed.waiting sub.chan).Sublist
      (news sub.listener acc [.update 0 3 7, .poll 0]) := by
  have hproper : ∀ a ∈ [Action.connect "s" ["a"], .listen 0] ++ [.update 0 3 7, .poll 0], a.Proper := by
    simp [Action.Proper]
  have hbefore : Hub.empty.run [.connect "s" ["a"], .listen 0] = some (.ok newcomer) := by decide
  have hstep : newcomer.step (.subscribe 0) = some (.ok
      ⟨[⟨"s", "a", "INBOX", [0], false⟩], [⟨[], false⟩],
        [⟨"s", ["a"], .polling 0, [⟨0, 0⟩], []⟩]⟩) := by decide
  have hafter : Hub.run ⟨[⟨"s", "a", "INBOX", [0], false⟩], [⟨[], false⟩],
      [⟨"s", ["a"], .polling 0, [⟨0, 0⟩], []⟩]⟩
      [.update 0 3 7, .poll 0] = some (.ok informed) := by decide
  obtain ⟨sub, id, acc, -, -, hid, hnews, -⟩ := delivered hproper hbefore hstep hafter
  exact ⟨_, sub, id, acc, hstep, hid, hnews⟩

/-- A subscription was made by a step of the run. -/
theorem exists_subscribe (hnew : sub ∉ h.wires.had s) (hrun : h.run acts = some (.ok h'))
    (hsub : sub ∈ h'.wires.had s) : ∃ before after h₁ h₂, acts = before ++ .subscribe s :: after ∧
      h.run before = some (.ok h₁) ∧ h₁.step (.subscribe s) = some (.ok h₂) ∧
      sub ∉ h₁.wires.had s ∧ sub ∈ h₂.wires.had s ∧ h₂.run after = some (.ok h') := by
  induction acts generalizing h with
  | nil =>
    obtain rfl := Except.ok.inj (Option.some.inj hrun)
    exact absurd hsub hnew
  | cons a acts ih =>
    obtain ⟨h₁, hstep, hrest⟩ := run_cons hrun
    by_cases hfirst : sub ∈ h₁.wires.had s
    · obtain hold | ⟨rfl, -⟩ := had_before (rewired (stepped_of_step hstep)) hfirst
      · exact absurd hold hnew
      · exact ⟨[], acts, h, h₁, rfl, rfl, hstep, hnew, hfirst, hrest⟩
    · obtain ⟨before, after, k₁, k₂, rfl, hbefore, hlater⟩ := ih hfirst hrest
      refine ⟨a :: before, after, k₁, k₂, rfl, ?_, hlater⟩
      rw [run, hstep]
      exact hbefore

/-- What has been written to a client since it has subscribed to a listener for an account is news of
this listener. -/
theorem told_sublist (hG : Good h) (hstep : h.step (.subscribe s) = some (.ok h₂))
    (hnew : sub ∉ h.wires.had s)
    (hsub : sub ∈ h₂.wires.had s) (hproper : ∀ a ∈ acts, a.Proper) (hrun : h₂.run acts = some (.ok h'))
    (hid : h'.ident sub.listener = wanted id acc) : (h'.told s acc).Sublist (news sub.listener acc acts) := by
  obtain ⟨sub', id', acc', uses, hhad, -, hid', hall, hputs, -⟩ := since_subscribed hG hstep hproper hrun
  rw [hhad, List.mem_append, List.mem_singleton] at hsub
  obtain rfl := hsub.resolve_left hnew
  have hsame := (ident_run hrun hid').symm.trans hid
  simp only [wanted, Option.some.injEq, Prod.mk.injEq] at hsame
  obtain rfl := hsame.2.1
  refine (List.sublist_append_left _ (h'.waiting sub.chan)).trans ?_
  rw [hall]
  exact (sublist_puts chanSize ⟨[], []⟩ uses).trans hputs

/-- **A client is told nothing about others**: what it gets names an account of its session, and was
announced, after the client had subscribed, by the listener of its own session for this account. -/
theorem told_own {acts : List Action} (hproper : ∀ a ∈ acts, a.Proper)
    (hrun : Hub.empty.run acts = some (.ok h)) (hst : h.streams[s]? = some st) {e : MailboxEvent}
    (he : e ∈ st.sent) : e.accountID ∈ st.accounts ∧
      ∃ sub ∈ st.subscriptions, h.ident sub.listener = wanted st.sessionID e.accountID ∧
        ∃ before after, acts = before ++ .subscribe s :: after ∧ e ∈ news sub.listener e.accountID after := by
  have hG := good_run hproper good_empty hrun
  obtain ⟨sub, hsub, hid⟩ := (hG.settled st (List.mem_of_getElem? hst)).own e he
  obtain ⟨acc, hacc, hident⟩ := ident_of_had hG.routed hst hsub
  have heq := hid.symm.trans hident
  simp only [wanted, Option.some.injEq, Prod.mk.injEq] at heq
  refine ⟨heq.2.1 ▸ hacc, sub, hsub, hid, ?_⟩
  have hnone : sub ∉ Hub.empty.wires.had s := by simp [Hub.empty, wires]
  obtain ⟨before, after, h₁, h₂, rfl, hbefore, hstep, hnew, hhad, hafter⟩ :=
    exists_subscribe hnone hrun (by rwa [had_eq hst])
  obtain ⟨hold, hlater⟩ := List.forall_mem_append.mp hproper
  have htold := told_sublist (good_run hold good_empty hbefore) hstep hnew hhad
    (List.forall_mem_cons.mp hlater).2 hafter hid
  refine ⟨before, after, rfl, htold.subset ?_⟩
  rw [told_eq hst]
  exact List.mem_filter.mpr ⟨he, beq_self_eq_true _⟩

theorem told_own_informed : "a" ∈ ["a"] ∧ ∃ sub ∈ [(⟨0, 0⟩ : Subscription)],
    informed.ident sub.listener = wanted "s" "a" ∧ ∃ before after,
      [Action.connect "s" ["a"], .listen 0, .subscribe 0, .update 0 3 7, .poll 0] =
        before ++ .subscribe 0 :: after ∧
      ⟨"NEW_MESSAGE", "a", "INBOX", 3, 7⟩ ∈ news sub.listener "a" after := by
  have hproper : ∀ a ∈ [Action.connect "s" ["a"], .listen 0, .subscribe 0, .update 0 3 7, .poll 0],
      a.Proper := by
    simp [Action.Proper]
  have hrun : Hub.empty.run [.connect "s" ["a"], .listen 0, .subscribe 0, .update 0 3 7, .poll 0] =
      some (.ok informed) := by decide
  have hst : informed.streams[0]? =
      some ⟨"s", ["a"], .polling 0, [⟨0, 0⟩], [⟨"NEW_MESSAGE", "a", "INBOX", 3, 7⟩]⟩ := rfl
  exact told_own hproper hrun hst List.mem_cons_self

end Hub

end E2Mail.Backend.Events
