import E2Mail.Backend.AttemptLimit
import E2Mail.Lib.FixedWindow
import E2Mail.Lib.KeyMap
import E2Mail.Lib.Pattern

/-!
# The request limiter

Requests are counted by scope and client in fixed windows. An entry that has not been used for
ten minutes is swept out, and when the table is full a client without an entry is refused.

* `allow` — one request.
* `Tracks` — what the entry of a client says of the requests that have been allowed.
* `SameWindow` — two entries that no request tells apart.
* `rateLimit` — how many requests are allowed, when one is refused, and that the clients do
  not disturb each other.
-/

namespace E2Mail.Backend.RateLimit

open Lib Lib.FixedWindow

/-- A string. -/
abbrev Text := List Char

/-- `maxRateLimitKeys`. -/
def maxRateLimitKeys : Nat := 10000

/-- Ten minutes. -/
def tenMinutes : Int := (10 * minute : Nat)

/-- `requestWindow`. -/
structure RequestWindow where
  started : Int
  lastSeen : Int
  count : Nat
  deriving DecidableEq

/-- `IPRateLimiter`. -/
structure IPRateLimiter where
  entries : KeyMap Text RequestWindow
  lastSweep : Int

/-- The limits of a scope. -/
structure Limit where
  maxRequests : Int
  window : Int

/-- The key of a scope and a client. -/
def rateKey (scope ip : Text) : Text := scope ++ '\x00' :: ip

namespace IPRateLimiter

/-- `NewIPRateLimiter`. -/
def new : IPRateLimiter := ⟨Table.empty, 0⟩

/-- The sweep, once in a minute. -/
def swept (l : IPRateLimiter) (now : Int) : IPRateLimiter :=
  if (minute : Int) ≤ now - l.lastSweep then
    ⟨l.entries.sweep fun entry => tenMinutes < now - entry.lastSeen, now⟩
  else l

/-- A request in a window. -/
def record (l : IPRateLimiter) (key : Text) (L : Limit) (now : Int) (entry : RequestWindow) :
    (Bool × Int) × IPRateLimiter :=
  let entry := { entry with lastSeen := now, count := entry.count + 1 }
  let l := { l with entries := l.entries.put key entry }
  if L.maxRequests < entry.count then ((false, entry.started + L.window - now), l) else ((true, 0), l)

/-- `allow`: whether the request is, and else how long to wait. -/
def allow (l : IPRateLimiter) (scope ip : Text) (L : Limit) (now : Int) : (Bool × Int) × IPRateLimiter :=
  if L.maxRequests ≤ 0 ∨ L.window ≤ 0 then ((true, 0), l)
  else
    let key := rateKey scope ip
    let l := l.swept now
    match l.entries.get key with
    | none =>
      if maxRateLimitKeys ≤ l.entries.size then ((false, minute), l)
      else l.record key L now ⟨now, now, 0⟩
    | some entry =>
      if L.window ≤ now - entry.started then l.record key L now ⟨now, now, 0⟩
      else l.record key L now entry

end IPRateLimiter

/-! ## Runs -/

/-- A request. -/
structure RateCall where
  now : Int
  scope : Text
  ip : Text
  deriving DecidableEq

/-- The request is one of a scope and a client. -/
def RateCall.Of (scope ip : Text) (c : RateCall) : Prop := c.scope = scope ∧ c.ip = ip

instance (scope ip : Text) (c : RateCall) : Decidable (c.Of scope ip) :=
  inferInstanceAs (Decidable (_ ∧ _))

/-- The requests come one after the other. -/
def InTime (calls : List RateCall) : Prop := calls.Pairwise fun a b => a.now ≤ b.now

/-- A request and its answer. -/
abbrev Answered : Type := RateCall × (Bool × Int)

variable (limits : Text → Limit)

/-- A request, with the limits of its scope. -/
def IPRateLimiter.call (l : IPRateLimiter) (c : RateCall) : (Bool × Int) × IPRateLimiter :=
  l.allow c.scope c.ip (limits c.scope) c.now

/-- The limiter after requests. -/
def IPRateLimiter.after (l : IPRateLimiter) (calls : List RateCall) : IPRateLimiter :=
  calls.foldl (fun l c => (l.call limits c).2) l

/-- The requests with their answers. -/
def IPRateLimiter.log (l : IPRateLimiter) : List RateCall → List Answered
  | [] => []
  | c :: calls => (c, (l.call limits c).1) :: log (l.call limits c).2 calls

/-- When requests of a scope and a client were allowed. -/
def allowedTimes (scope ip : Text) (log : List Answered) : List Int :=
  (log.filter fun a => a.1.Of scope ip ∧ a.2.1 = true).map fun a => a.1.now

variable {limits} {L : Limit} {l l' : IPRateLimiter} {scope ip key : Text} {now later : Int}
  {o o' : Option RequestWindow} {times : List Int}

theorem after_concat (calls : List RateCall) (c : RateCall) :
    l.after limits (calls ++ [c]) = ((l.after limits calls).call limits c).2 := by
  rw [IPRateLimiter.after, List.foldl_append]
  rfl

theorem log_concat (calls : List RateCall) (c : RateCall) :
    l.log limits (calls ++ [c]) = l.log limits calls ++ [(c, ((l.after limits calls).call limits c).1)] := by
  induction calls generalizing l with
  | nil => rfl
  | cons d calls ih =>
    rw [List.cons_append, IPRateLimiter.log, ih]
    rfl

theorem rateKey_inj {scope' ip' : Text} (h : '\x00' ∉ scope) (h' : '\x00' ∉ scope')
    (hkey : rateKey scope ip = rateKey scope' ip') : scope = scope' ∧ ip = ip' :=
  Pattern.cut_inj h h' hkey

/-! ## One request -/

/-- What a sweep leaves of an entry. -/
def kept (now : Int) (o : Option RequestWindow) : Option RequestWindow :=
  o.filter fun entry => !decide (tenMinutes < now - entry.lastSeen)

/-- The entry that a request is counted in. -/
def current (L : Limit) (now : Int) (o : Option RequestWindow) : RequestWindow :=
  (o.filter fun entry => now - entry.started < L.window).getD ⟨now, now, 0⟩

theorem current_none : current L now none = ⟨now, now, 0⟩ := rfl

theorem current_live {entry : RequestWindow} (h : now - entry.started < L.window) :
    current L now (some entry) = entry := by
  rw [current, Option.filter_some, if_pos (decide_eq_true h)]
  rfl

theorem current_over {entry : RequestWindow} (h : L.window ≤ now - entry.started) :
    current L now (some entry) = ⟨now, now, 0⟩ := by
  rw [current, Option.filter_some, if_neg (by simpa using h)]
  rfl

theorem get_swept (l : IPRateLimiter) (now : Int) (key : Text) :
    (l.swept now).entries.get key = l.entries.get key ∨
      (l.swept now).entries.get key = kept now (l.entries.get key) := by
  rw [IPRateLimiter.swept]
  split
  · exact .inr KeyMap.get_sweep
  · exact .inl rfl

theorem size_swept_le : (l.swept now).entries.size ≤ l.entries.size := by
  rw [IPRateLimiter.swept]
  split
  · exact KeyMap.size_sweep_le
  · exact Nat.le_refl _

/-- **One request**: it is refused for want of room, or it is counted. -/
theorem allow_cases (l : IPRateLimiter) (scope ip : Text) (now : Int) (hmax : 0 < L.maxRequests)
    (hwindow : 0 < L.window) :
    (maxRateLimitKeys ≤ (l.swept now).entries.size ∧
        l.allow scope ip L now = ((false, (minute : Int)), l.swept now)) ∨
      l.allow scope ip L now = (l.swept now).record (rateKey scope ip) L now
        (current L now ((l.swept now).entries.get (rateKey scope ip))) := by
  rw [IPRateLimiter.allow, if_neg (by omega)]
  cases hentry : (l.swept now).entries.get (rateKey scope ip) with
  | none =>
    simp only [hentry]
    split
    · rename_i hfull
      exact .inl ⟨hfull, rfl⟩
    · exact .inr rfl
  | some entry =>
    right
    simp only [hentry]
    split
    · rename_i hover
      rw [current_over hover]
    · rename_i hlive
      rw [current_live (by omega)]

theorem record_answer (entry : RequestWindow) :
    (l.record key L now entry).1.1 = decide ((entry.count + 1 : Nat) ≤ L.maxRequests) := by
  rw [IPRateLimiter.record]
  split
  · rename_i hover
    exact (decide_eq_false (by simpa using hover)).symm
  · rename_i hroom
    exact (decide_eq_true (by simpa using hroom)).symm

theorem record_entries (entry : RequestWindow) : (l.record key L now entry).2.entries =
    l.entries.put key { entry with lastSeen := now, count := entry.count + 1 } := by
  rw [IPRateLimiter.record]
  split <;> rfl

/-- A request leaves the entries of the others, but for the sweep. -/
theorem get_allow_ne (l : IPRateLimiter) (L : Limit) (now : Int) (hne : key ≠ rateKey scope ip) :
    (l.allow scope ip L now).2.entries.get key = l.entries.get key ∨
      (l.allow scope ip L now).2.entries.get key = kept now (l.entries.get key) := by
  by_cases hpos : L.maxRequests ≤ 0 ∨ L.window ≤ 0
  · rw [IPRateLimiter.allow, if_pos hpos]
    exact .inl rfl
  · rcases allow_cases l scope ip now (L := L) (by omega) (by omega) with ⟨-, h⟩ | h
    · rw [h]
      exact get_swept l now key
    · rw [h, record_entries, KeyMap.get_put_ne hne]
      exact get_swept l now key

/-! ## What an entry says -/

/-- What the entry of a client says of the requests that have been allowed: how many there were
in its window, or that the last window is over. -/
inductive Tracks (L : Limit) (now : Int) (times : List Int) : Option RequestWindow → Prop where
  | absent {s : Int} (hover : s + L.window ≤ now)
      (hcounted : InWindows L.window L.maxRequests.toNat times s) :
      Tracks L now times none
  | present {entry : RequestWindow} (hcounted : InWindows L.window L.maxRequests.toNat times entry.started)
      (hcount : since times entry.started = min entry.count L.maxRequests.toNat)
      (hstarted : entry.started ≤ entry.lastSeen) (hseen : entry.lastSeen ≤ now) :
      Tracks L now times (some entry)

theorem Tracks.mono (h : Tracks L now times o) (hle : now ≤ later) : Tracks L later times o := by
  cases h with
  | absent hover hcounted => exact .absent (by omega) hcounted
  | present hcounted hcount hstarted hseen => exact .present hcounted hcount hstarted (by omega)

/-- What is swept out is over. -/
theorem Tracks.kept (h : Tracks L now times o) (hten : L.window ≤ tenMinutes) :
    Tracks L now times (kept now o) := by
  cases h with
  | absent hover hcounted => exact .absent hover hcounted
  | @present entry hcounted hcount hstarted hseen =>
    rw [RateLimit.kept, Option.filter_some]
    split
    · exact .present hcounted hcount hstarted hseen
    · rename_i hold
      have hold : tenMinutes + entry.lastSeen < now := by simpa using hold
      exact .absent (s := entry.started) (by omega) hcounted

theorem Tracks.swept (h : Tracks L now times (l.entries.get key)) (hten : L.window ≤ tenMinutes) :
    Tracks L now times ((l.swept now).entries.get key) := by
  rcases get_swept l now key with hget | hget
  · rw [hget]
    exact h
  · rw [hget]
    exact h.kept hten

/-- **A request that is counted**, allowed or not. -/
theorem Tracks.record (h : Tracks L now times (l.entries.get key)) (hmax : 0 < L.maxRequests)
    (hwindow : 0 < L.window) :
    Tracks L now
      (times ++ if (l.record key L now (current L now (l.entries.get key))).1.1 = true then [now] else [])
      ((l.record key L now (current L now (l.entries.get key))).2.entries.get key) := by
  rw [record_entries, KeyMap.get_put, record_answer]
  -- a window that begins now
  have hfresh : ∀ s, s + L.window ≤ now → InWindows L.window L.maxRequests.toNat times s →
      Tracks L now (times ++ [now]) (some ⟨now, now, 1⟩) := by
    intro s hover hcounted
    have hone : since (times ++ [now]) now = min 1 L.maxRequests.toNat := by
      rw [since_concat, hcounted.since_eq_zero hover, if_pos (le_refl now)]
      omega
    exact .present (hcounted.next hwindow (by omega) hover) hone (le_refl now) (le_refl now)
  -- the window goes on
  have hagain : ∀ entry : RequestWindow, now < entry.started + L.window →
      InWindows L.window L.maxRequests.toNat times entry.started →
      since times entry.started = min entry.count L.maxRequests.toNat → entry.started ≤ now →
      Tracks L now (times ++ if ((entry.count + 1 : Nat) : Int) ≤ L.maxRequests then [now] else [])
        (some { entry with lastSeen := now, count := entry.count + 1 }) := by
    intro entry hlive hcounted hcount hstarted
    split
    · rename_i hroom
      have hroom' : since times entry.started < L.maxRequests.toNat := by omega
      have hmore : since (times ++ [now]) entry.started = min (entry.count + 1) L.maxRequests.toNat := by
        rw [since_concat, if_pos hstarted]
        omega
      exact .present (hcounted.again hstarted hlive hroom') hmore hstarted (le_refl now)
    · rename_i hfull
      have hsame : since times entry.started = min (entry.count + 1) L.maxRequests.toNat := by omega
      rw [List.append_nil]
      exact .present hcounted hsame hstarted (le_refl now)
  have hone : ((0 + 1 : Nat) : Int) ≤ L.maxRequests := by omega
  generalize l.entries.get key = o at h ⊢
  cases h with
  | absent hover hcounted =>
    rw [current_none, decide_eq_true hone, if_pos rfl]
    exact hfresh _ hover hcounted
  | @present entry hcounted hcount hstarted hseen =>
    by_cases hlive : now - entry.started < L.window
    · rw [current_live hlive]
      simp only [decide_eq_true_eq]
      exact hagain entry (by omega) hcounted hcount (by omega)
    · rw [current_over (by omega), decide_eq_true hone, if_pos rfl]
      exact hfresh entry.started (by omega) hcounted

variable {c : RateCall} {calls : List RateCall}

/-- **One request** of a run, of whichever client. -/
theorem tracks_call (hnul : '\x00' ∉ scope) (hc : '\x00' ∉ c.scope)
    (hmax : 0 < (limits scope).maxRequests) (hwindow : 0 < (limits scope).window)
    (hten : (limits scope).window ≤ tenMinutes)
    (h : Tracks (limits scope) c.now times (l.entries.get (rateKey scope ip))) :
    Tracks (limits scope) c.now
      (times ++ if c.Of scope ip ∧ (l.call limits c).1.1 = true then [c.now] else [])
      ((l.call limits c).2.entries.get (rateKey scope ip)) := by
  by_cases hof : c.Of scope ip
  · obtain ⟨rfl, rfl⟩ := hof
    have hiff : (c.Of c.scope c.ip ∧ (l.call limits c).1.1 = true) = ((l.call limits c).1.1 = true) :=
      propext ⟨And.right, fun hanswer => ⟨⟨rfl, rfl⟩, hanswer⟩⟩
    simp only [hiff]
    rw [IPRateLimiter.call]
    rcases allow_cases l c.scope c.ip c.now hmax hwindow with ⟨-, hfull⟩ | hcounted
    · rw [hfull, if_neg Bool.false_ne_true, List.append_nil]
      exact h.swept hten
    · rw [hcounted]
      exact (h.swept hten).record hmax hwindow
  · have hne : rateKey scope ip ≠ rateKey c.scope c.ip := fun hkey =>
      hof ((rateKey_inj hc hnul hkey.symm).imp id id)
    rw [if_neg fun hof' => hof hof'.1, List.append_nil, IPRateLimiter.call]
    rcases get_allow_ne l (limits c.scope) c.now hne with hget | hget
    · rw [hget]
      exact h
    · rw [hget]
      exact h.kept hten

theorem allowedTimes_concat (log : List Answered) (c : RateCall) (answer : Bool × Int) :
    allowedTimes scope ip (log ++ [(c, answer)]) =
      allowedTimes scope ip log ++ if c.Of scope ip ∧ answer.1 = true then [c.now] else [] := by
  rw [allowedTimes, List.filter_append, List.map_append, ← allowedTimes, List.filter_singleton]
  by_cases h : c.Of scope ip ∧ answer.1 = true
  · rw [if_pos h, decide_eq_true h]
    rfl
  · rw [if_neg h, decide_eq_false h]
    rfl

/-- **A run of requests.** -/
theorem tracks_run (hnul : '\x00' ∉ scope) (hmax : 0 < (limits scope).maxRequests)
    (hwindow : 0 < (limits scope).window) (hten : (limits scope).window ≤ tenMinutes)
    (hcalls : ∀ c ∈ calls, '\x00' ∉ c.scope) (htime : InTime calls) (hnow : ∀ c ∈ calls, c.now ≤ now) :
    Tracks (limits scope) now (allowedTimes scope ip (IPRateLimiter.new.log limits calls))
      ((IPRateLimiter.new.after limits calls).entries.get (rateKey scope ip)) := by
  induction calls using List.reverseRecOn generalizing now with
  | nil => exact .absent (s := now - (limits scope).window) (by omega) (inWindows_nil _)
  | append_singleton calls c ih =>
    obtain ⟨hbefore, -, hlast⟩ := List.pairwise_append.mp htime
    have hearlier : ∀ d ∈ calls, d.now ≤ c.now := fun d hd => hlast d hd c List.mem_cons_self
    have htracks := ih (fun d hd => hcalls d (List.mem_append_left _ hd)) hbefore hearlier
    have hstep := tracks_call hnul (hcalls c (by simp)) hmax hwindow hten htracks
    rw [log_concat, allowedTimes_concat, after_concat]
    exact hstep.mono (hnow c (by simp))

theorem exists_later (calls : List RateCall) : ∃ now, ∀ c ∈ calls, c.now ≤ now := by
  induction calls with
  | nil => exact ⟨0, nofun⟩
  | cons c calls ih =>
    obtain ⟨now, hnow⟩ := ih
    refine ⟨max c.now now, fun d hd => ?_⟩
    rcases List.mem_cons.mp hd with rfl | hd
    · exact le_max_left _ _
    · exact (hnow d hd).trans (le_max_right _ _)

/-- In no stretch of time as wide as the window more than twice the limit is allowed. -/
theorem within_allowedTimes (hnul : '\x00' ∉ scope) (hmax : 0 < (limits scope).maxRequests)
    (hten : (limits scope).window ≤ tenMinutes) (hcalls : ∀ c ∈ calls, '\x00' ∉ c.scope)
    (htime : InTime calls) (t : Int) :
    (within (allowedTimes scope ip (IPRateLimiter.new.log limits calls)) t
      (t + (limits scope).window) : Int) ≤
      2 * (limits scope).maxRequests := by
  rcases Int.lt_or_le 0 (limits scope).window with hwindow | hempty
  · obtain ⟨now, hnow⟩ := exists_later calls
    have htracks : Tracks (limits scope) now (allowedTimes scope ip (IPRateLimiter.new.log limits calls)) _ :=
      tracks_run hnul hmax hwindow hten hcalls htime hnow
    have hbound : within (allowedTimes scope ip (IPRateLimiter.new.log limits calls)) t
        (t + (limits scope).window) ≤ 2 * (limits scope).maxRequests.toNat := by
      generalize (IPRateLimiter.new.after limits calls).entries.get (rateKey scope ip) = o at htracks
      cases htracks with
      | absent _ hcounted => exact hcounted.bound t
      | present hcounted _ _ _ => exact hcounted.bound t
    omega
  · have hzero : within (allowedTimes scope ip (IPRateLimiter.new.log limits calls)) t
        (t + (limits scope).window) = 0 := by
      rw [within, List.countP_eq_zero]
      intro a _
      simp
      omega
    omega

/-- **A request is refused** only if as many as the limit were allowed in the window of its entry. -/
theorem refused_after (hnul : '\x00' ∉ c.scope) (hten : (limits c.scope).window ≤ tenMinutes)
    (hcalls : ∀ c ∈ calls, '\x00' ∉ c.scope) (htime : InTime (calls ++ [c]))
    (hroom : (IPRateLimiter.new.after limits calls).entries.size < maxRateLimitKeys)
    (hrefused : ((IPRateLimiter.new.after limits calls).call limits c).1.1 = false) :
    ∃ entry, (IPRateLimiter.new.after limits calls).entries.get (rateKey c.scope c.ip) = some entry ∧
      entry.started ≤ c.now ∧ c.now < entry.started + (limits c.scope).window ∧
      (limits c.scope).maxRequests ≤
        since (allowedTimes c.scope c.ip (IPRateLimiter.new.log limits calls)) entry.started := by
  obtain ⟨hbefore, -, hlast⟩ := List.pairwise_append.mp htime
  rw [IPRateLimiter.call] at hrefused
  by_cases hpos : (limits c.scope).maxRequests ≤ 0 ∨ (limits c.scope).window ≤ 0
  · rw [IPRateLimiter.allow, if_pos hpos] at hrefused
    cases hrefused
  have htracks : Tracks (limits c.scope) c.now
      (allowedTimes c.scope c.ip (IPRateLimiter.new.log limits calls)) _ :=
    tracks_run hnul (by omega) (by omega) hten hcalls hbefore fun d hd => hlast d hd c List.mem_cons_self
  generalize hl : IPRateLimiter.new.after limits calls = l at htracks hroom hrefused ⊢
  rcases allow_cases l c.scope c.ip c.now (L := limits c.scope) (by omega) (by omega) with
    ⟨hfull, -⟩ | hcounted
  · exact absurd (hfull.trans size_swept_le) (by omega)
  rw [hcounted, record_answer, decide_eq_false_iff_not] at hrefused
  have hone : ((0 + 1 : Nat) : Int) ≤ (limits c.scope).maxRequests := by omega
  have hlive : ∃ entry, (l.swept c.now).entries.get (rateKey c.scope c.ip) = some entry ∧
      c.now - entry.started < (limits c.scope).window ∧ (limits c.scope).maxRequests < entry.count + 1 := by
    cases hentry : (l.swept c.now).entries.get (rateKey c.scope c.ip) with
    | none =>
      rw [hentry, current_none] at hrefused
      exact absurd hone hrefused
    | some entry =>
      rw [hentry] at hrefused
      by_cases hlive : c.now - entry.started < (limits c.scope).window
      · rw [current_live hlive] at hrefused
        exact ⟨entry, rfl, hlive, by omega⟩
      · rw [current_over (by omega)] at hrefused
        exact absurd hone hrefused
  obtain ⟨entry, hentry, hlive, hfull⟩ := hlive
  have hget : l.entries.get (rateKey c.scope c.ip) = some entry := by
    rcases get_swept l c.now (rateKey c.scope c.ip) with hget | hget
    · rwa [hget] at hentry
    · rw [hget, kept, Option.filter_eq_some_iff] at hentry
      exact hentry.1
  rw [hget] at htracks
  cases htracks with
  | present hcounted hcount hstarted hseen => exact ⟨entry, hget, by omega, by omega, by omega⟩

/-! ## Other clients -/

/-- The entry is from before. -/
def Seen (now : Int) (o : Option RequestWindow) : Prop :=
  ∀ entry ∈ o, entry.started ≤ entry.lastSeen ∧ entry.lastSeen ≤ now

/-- What is left of an entry, if its window is not over. -/
def live (w now : Int) (o : Option RequestWindow) : Option RequestWindow :=
  o.filter fun entry => now - entry.started < w

/-- Two entries that no request from now on tells apart. -/
structure SameWindow (w now : Int) (o o' : Option RequestWindow) : Prop where
  live : live w now o = live w now o'
  seen : Seen now o
  seen' : Seen now o'

variable {w : Int}

theorem SameWindow.symm (h : SameWindow w now o o') : SameWindow w now o' o := ⟨h.live.symm, h.seen', h.seen⟩

theorem Seen.mono (h : Seen now o) (hle : now ≤ later) : Seen later o := fun entry hentry => by
  have hseen := h entry hentry
  omega

theorem live_live (hle : now ≤ later) (o : Option RequestWindow) :
    RateLimit.live w later (RateLimit.live w now o) = RateLimit.live w later o := by
  cases o with
  | none => rfl
  | some entry =>
    rw [live, live, live, Option.filter_some]
    split
    · rfl
    · rename_i hover
      rw [Option.filter_none, Option.filter_some, if_neg (by simp at hover ⊢; omega)]

theorem SameWindow.mono (h : SameWindow w now o o') (hle : now ≤ later) : SameWindow w later o o' := by
  refine ⟨?_, h.seen.mono hle, h.seen'.mono hle⟩
  rw [← live_live hle o, ← live_live hle o', h.live]

theorem live_kept (h : Seen now o) (hten : w ≤ tenMinutes) :
    RateLimit.live w now (kept now o) = RateLimit.live w now o := by
  cases o with
  | none => rfl
  | some entry =>
    have hseen := h entry rfl
    rw [kept, Option.filter_some]
    split
    · rfl
    · rename_i hold
      rw [live, live, Option.filter_none, Option.filter_some, if_neg (by simp at hold ⊢; omega)]

theorem Seen.kept (h : Seen now o) : Seen now (kept now o) :=
  fun entry hentry => h entry (Option.filter_eq_some_iff.mp hentry).1

theorem SameWindow.kept_left (h : SameWindow w now o o') (hten : w ≤ tenMinutes) :
    SameWindow w now (kept now o) o' := ⟨by rw [live_kept h.seen hten, h.live], h.seen.kept, h.seen'⟩

theorem SameWindow.swept_left (h : SameWindow w now (l.entries.get key) o') (hten : w ≤ tenMinutes) :
    SameWindow w now ((l.swept now).entries.get key) o' := by
  rcases get_swept l now key with hget | hget
  · rw [hget]
    exact h
  · rw [hget]
    exact h.kept_left hten

theorem SameWindow.current_eq (h : SameWindow L.window now o o') : current L now o = current L now o' :=
  congrArg (fun e : Option RequestWindow => e.getD ⟨now, now, 0⟩) h.live

theorem started_current (h : Seen now o) : (current L now o).started ≤ now := by
  cases o with
  | none => exact le_refl now
  | some entry =>
    have hseen := h entry rfl
    by_cases hlive : now - entry.started < L.window
    · rw [current_live hlive]
      omega
    · rw [current_over (by omega)]

theorem record_answer_eq (entry : RequestWindow) :
    (l.record key L now entry).1 = (l'.record key L now entry).1 := by
  rw [IPRateLimiter.record, IPRateLimiter.record]
  split <;> rfl

/-- **A request is answered alike** where the entries are not told apart, and they are not after it. -/
theorem SameWindow.record (h : SameWindow L.window now (l.entries.get key) (l'.entries.get key)) :
    (l.record key L now (current L now (l.entries.get key))).1 =
        (l'.record key L now (current L now (l'.entries.get key))).1 ∧
      SameWindow L.window now
        ((l.record key L now (current L now (l.entries.get key))).2.entries.get key)
        ((l'.record key L now (current L now (l'.entries.get key))).2.entries.get key) := by
  have hstarted := started_current (L := L) h.seen
  rw [← h.current_eq, record_entries, record_entries, KeyMap.get_put, KeyMap.get_put]
  refine ⟨record_answer_eq _, rfl, ?_, ?_⟩ <;>
  · intro entry hentry
    cases hentry
    exact ⟨hstarted, le_refl now⟩

/-- The limiter has no entry but one client's. -/
def Only (key : Text) (l : IPRateLimiter) : Prop := ∀ r ∈ l.entries.rows, r.1 = key

theorem Only.size_le (h : Only key l) : l.entries.size ≤ 1 := by
  have hcount := Table.count_le_one (t := l.entries) (p := fun _ => true) (k := key) fun r hr _ => h r hr
  rwa [Table.count, List.countP_true] at hcount

theorem Only.swept (h : Only key l) : Only key (l.swept now) := by
  rw [IPRateLimiter.swept]
  split
  · exact fun r hr => h r (Table.mem_delete.mp hr).1
  · exact h

theorem Only.record (h : Only key l) (entry : RequestWindow) : Only key (l.record key L now entry).2 := by
  intro r hr
  rw [record_entries, KeyMap.mem_put] at hr
  rcases hr with rfl | hr
  · rfl
  · exact h r hr.1

/-- **A request of the client**, in a table with others and in one without. -/
theorem sameWindow_allow (hten : L.window ≤ tenMinutes)
    (h : SameWindow L.window now (l.entries.get (rateKey scope ip)) (l'.entries.get (rateKey scope ip)))
    (honly : Only (rateKey scope ip) l') (hroom : l.entries.size < maxRateLimitKeys) :
    (l.allow scope ip L now).1 = (l'.allow scope ip L now).1 ∧
      SameWindow L.window now ((l.allow scope ip L now).2.entries.get (rateKey scope ip))
        ((l'.allow scope ip L now).2.entries.get (rateKey scope ip)) ∧
      Only (rateKey scope ip) (l'.allow scope ip L now).2 := by
  by_cases hpos : L.maxRequests ≤ 0 ∨ L.window ≤ 0
  · rw [IPRateLimiter.allow, IPRateLimiter.allow, if_pos hpos, if_pos hpos]
    exact ⟨rfl, h, honly⟩
  rcases allow_cases l scope ip now (L := L) (by omega) (by omega) with ⟨hfull, -⟩ | hallow
  · exact absurd (hfull.trans size_swept_le) (by omega)
  rcases allow_cases l' scope ip now (L := L) (by omega) (by omega) with ⟨hfull, -⟩ | hallow'
  · exact absurd (hfull.trans honly.swept.size_le) (by decide)
  have hswept := ((h.swept_left hten).symm.swept_left hten).symm
  obtain ⟨hanswer, hsame⟩ := hswept.record
  rw [hallow, hallow']
  exact ⟨hanswer, hsame, honly.swept.record _⟩

/-- The table has room whenever the client has a request. -/
def Roomy (limits : Text → Limit) (scope ip : Text) (l : IPRateLimiter) (calls : List RateCall) : Prop :=
  ∀ before c rest, calls = before ++ c :: rest → c.Of scope ip →
    (l.after limits before).entries.size < maxRateLimitKeys

theorem seen_new (key : Text) : Seen now (IPRateLimiter.new.entries.get key) := fun entry hentry =>
  absurd hentry (Option.not_mem_none entry)

theorem only_new (key : Text) : Only key .new := fun _ hr => absurd hr List.not_mem_nil

theorem log_filter (hnul : '\x00' ∉ scope) (hten : (limits scope).window ≤ tenMinutes)
    (hcalls : ∀ c ∈ calls, '\x00' ∉ c.scope) (htime : InTime calls) (hlater : ∀ c ∈ calls, now ≤ c.now)
    (hsame : SameWindow (limits scope).window now (l.entries.get (rateKey scope ip))
      (l'.entries.get (rateKey scope ip)))
    (honly : Only (rateKey scope ip) l') (hroom : Roomy limits scope ip l calls) :
    (l.log limits calls).filter (fun a => a.1.Of scope ip) =
      l'.log limits (calls.filter fun c => c.Of scope ip) := by
  induction calls generalizing l l' now with
  | nil => rfl
  | cons c calls ih =>
    obtain ⟨hfirst, hrest⟩ := List.pairwise_cons.mp htime
    have hnow : SameWindow (limits scope).window c.now _ _ := hsame.mono (hlater c List.mem_cons_self)
    have hnext : Roomy limits scope ip (l.call limits c).2 calls := fun before d rest hsplit =>
      hroom (c :: before) d rest (congrArg (c :: ·) hsplit)
    have hrestnul : ∀ d ∈ calls, '\x00' ∉ d.scope := fun d hd => hcalls d (List.mem_cons_of_mem c hd)
    by_cases hof : c.Of scope ip
    · obtain ⟨rfl, rfl⟩ := hof
      obtain ⟨hanswer, hsame', honly'⟩ := sameWindow_allow hten hnow honly (hroom [] c calls rfl ⟨rfl, rfl⟩)
      have hc : decide (c.Of c.scope c.ip) = true := decide_eq_true ⟨rfl, rfl⟩
      have hlog : ((l.call limits c).2.log limits calls).filter (fun a => a.1.Of c.scope c.ip) =
          (l'.call limits c).2.log limits (calls.filter fun d => d.Of c.scope c.ip) :=
        ih hrestnul hrest hfirst hsame' honly' hnext
      rw [IPRateLimiter.log, List.filter_cons, if_pos hc, List.filter_cons, if_pos hc,
        IPRateLimiter.log, hlog]
      exact congrArg (fun a => (c, a) :: _) hanswer
    · have hne : rateKey scope ip ≠ rateKey c.scope c.ip := fun hkey =>
        hof (rateKey_inj (hcalls c List.mem_cons_self) hnul hkey.symm)
      have hother : SameWindow (limits scope).window c.now
          ((l.call limits c).2.entries.get (rateKey scope ip)) (l'.entries.get (rateKey scope ip)) := by
        rw [IPRateLimiter.call]
        rcases get_allow_ne l (limits c.scope) c.now hne with hget | hget
        · rw [hget]
          exact hnow
        · rw [hget]
          exact hnow.kept_left hten
      rw [IPRateLimiter.log, List.filter_cons, if_neg (by simpa using hof), List.filter_cons,
        if_neg (by simpa using hof)]
      exact ih hrestnul hrest hfirst hother honly hnext

/-! ## The limiter -/

theorem mem_log {a : Answered} (h : a ∈ l.log limits calls) : a.1 ∈ calls := by
  induction calls generalizing l with
  | nil => exact absurd h List.not_mem_nil
  | cons c calls ih =>
    rcases List.mem_cons.mp h with rfl | h
    · exact List.mem_cons_self
    · exact List.mem_cons_of_mem c (ih h)

/-- A scope that no request has. -/
theorem filter_log_eq_nil (h : ∀ c ∈ calls, c.scope ≠ scope) :
    (l.log limits calls).filter (fun a => a.1.Of scope ip) = [] := by
  rw [List.filter_eq_nil_iff]
  intro a ha hof
  exact h a.1 (mem_log ha) (of_decide_eq_true hof).1

theorem allowedTimes_eq_nil (h : ∀ c ∈ calls, c.scope ≠ scope) :
    allowedTimes scope ip (l.log limits calls) = [] := by
  rw [allowedTimes, List.map_eq_nil_iff, List.filter_eq_nil_iff]
  intro a ha hof
  exact h a.1 (mem_log ha) (of_decide_eq_true hof).1.1

/-- **The request limiter**: how much is allowed, when a request is refused, and that the clients
do not disturb each other while the table has room. -/
theorem rateLimit (limits : Text → Limit) (hten : ∀ scope, (limits scope).window ≤ tenMinutes)
    {calls : List RateCall} (hnul : ∀ c ∈ calls, '\x00' ∉ c.scope) (htime : InTime calls) :
    (∀ scope ip t, 0 < (limits scope).maxRequests →
      (within (allowedTimes scope ip (IPRateLimiter.new.log limits calls)) t
        (t + (limits scope).window) : Int) ≤
        2 * (limits scope).maxRequests) ∧
    (∀ before c rest, calls = before ++ c :: rest →
      (IPRateLimiter.new.after limits before).entries.size < maxRateLimitKeys →
      ((IPRateLimiter.new.after limits before).call limits c).1.1 = false →
      ∃ entry, (IPRateLimiter.new.after limits before).entries.get (rateKey c.scope c.ip) = some entry ∧
        entry.started ≤ c.now ∧ c.now < entry.started + (limits c.scope).window ∧
        (limits c.scope).maxRequests ≤
          since (allowedTimes c.scope c.ip (IPRateLimiter.new.log limits before)) entry.started) ∧
    ∀ scope ip, Roomy limits scope ip .new calls →
      (IPRateLimiter.new.log limits calls).filter (fun a => a.1.Of scope ip) =
        IPRateLimiter.new.log limits (calls.filter fun c => c.Of scope ip) := by
  have hother : ∀ scope, '\x00' ∈ scope → ∀ c ∈ calls, c.scope ≠ scope := by
    rintro scope hscope c hc rfl
    exact hnul c hc hscope
  refine ⟨?_, ?_, ?_⟩
  · intro scope ip t hmax
    by_cases hscope : '\x00' ∈ scope
    · rw [allowedTimes_eq_nil (hother scope hscope), within, List.countP_nil]
      omega
    · exact within_allowedTimes hscope hmax (hten scope) hnul htime t
  · rintro before c rest rfl hroom hrefused
    have hsub : (before ++ [c]).Sublist (before ++ c :: rest) :=
      (List.Sublist.refl before).append (List.singleton_sublist.mpr List.mem_cons_self)
    exact refused_after (hnul c (by simp)) (hten c.scope) (fun d hd => hnul d (List.mem_append_left _ hd))
      (htime.sublist hsub) hroom hrefused
  · intro scope ip hroom
    by_cases hscope : '\x00' ∈ scope
    · have hnone : calls.filter (fun c => c.Of scope ip) = [] := by
        rw [List.filter_eq_nil_iff]
        intro c hc hof
        exact hother scope hscope c hc (of_decide_eq_true hof).1
      rw [filter_log_eq_nil (hother scope hscope), hnone, IPRateLimiter.log]
    · obtain ⟨start, hstart⟩ : ∃ start, ∀ c ∈ calls, start ≤ c.now := by
        cases calls with
        | nil => exact ⟨0, by simp⟩
        | cons c calls =>
          refine ⟨c.now, fun d hd => ?_⟩
          rcases List.mem_cons.mp hd with rfl | hd
          · exact le_refl _
          · exact (List.pairwise_cons.mp htime).1 d hd
      exact log_filter hscope (hten scope) hnul htime hstart ⟨rfl, seen_new _, seen_new _⟩ (only_new _) hroom

/-- The same limit in every scope. -/
def perMinute (maxRequests : Int) : Text → Limit := fun _ => ⟨maxRequests, (minute : Nat)⟩

theorem perMinute_le (maxRequests : Int) (scope : Text) :
    (perMinute maxRequests scope).window ≤ tenMinutes := by
  simp [perMinute, tenMinutes, minute, second]

/-- Three requests at once, where two in a minute are allowed. -/
def threeAtOnce : List RateCall := List.replicate 3 ⟨0, "api".toList, "192.0.2.1".toList⟩

theorem rateLimit_threeAtOnce :
    (within (allowedTimes "api".toList "192.0.2.1".toList (IPRateLimiter.new.log (perMinute 2) threeAtOnce)) 0
      (0 + (minute : Nat)) : Int) ≤ 2 * 2 := by
  have hnul : ∀ c ∈ threeAtOnce, '\x00' ∉ c.scope := by simp [threeAtOnce]
  exact (rateLimit (perMinute 2) (perMinute_le 2) hnul (by simp [InTime, threeAtOnce])).1 _ _ 0 (by decide)

/-- A limit of none is no limit. A scope with a NUL in its name shares its entries with another scope. -/
theorem noLimit_and_nul :
    (¬∀ (limits : Text → Limit) (calls : List RateCall), (∀ scope, (limits scope).window ≤ tenMinutes) →
      InTime calls → ∀ scope ip t,
        (within (allowedTimes scope ip (IPRateLimiter.new.log limits calls)) t
          (t + (limits scope).window) : Int) ≤
          2 * (limits scope).maxRequests) ∧
    ¬∀ (limits : Text → Limit) (calls : List RateCall), (∀ scope, (limits scope).window ≤ tenMinutes) →
      InTime calls → ∀ scope ip, Roomy limits scope ip .new calls →
        (IPRateLimiter.new.log limits calls).filter (fun a => a.1.Of scope ip) =
          IPRateLimiter.new.log limits (calls.filter fun c => c.Of scope ip) := by
  constructor
  · intro h
    have hone := h (perMinute 0) [⟨0, [], []⟩] (perMinute_le 0) (by simp [InTime]) [] [] 0
    revert hone
    decide
  · intro h
    have hroom : Roomy (perMinute 1) ['a'] ['b', '\x00', 'c'] .new
        [⟨0, ['a', '\x00', 'b'], ['c']⟩, ⟨0, ['a'], ['b', '\x00', 'c']⟩] := by
      rintro before c rest hsplit -
      rcases before with _ | ⟨d, _ | ⟨e, before⟩⟩
      · decide
      · rw [← (List.cons.inj hsplit).1]
        decide
      · have hlength := congrArg List.length hsplit
        simp at hlength
    have hshared := h (perMinute 1) _ (perMinute_le 1) (by simp [InTime]) _ _ hroom
    revert hshared
    decide

end E2Mail.Backend.RateLimit
