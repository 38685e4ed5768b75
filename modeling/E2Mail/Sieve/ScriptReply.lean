import E2Mail.Sieve.Lockstep

/-!
# Replies to GETSCRIPT

What `GetScript` makes of an arbitrary stream of octets, against the replies that the protocol
knows: the script as a literal or in quotes, the end of its line, and `OK`.

* `CarriedBy` — a stream that begins with such a reply;
* `Scans` — what the client reads over before a line that ends the reading;
* `Faithful` — the script of a reply is read, and anything else is an error;
* `faithful_iff` — when it is so.
-/

namespace E2Mail.ManageSieve

open Lib Lib.Text

variable {L : TextLib}

/-! ## Replies -/

/-- How a script is sent; a literal has a plus sign where the sender does not wait. -/
inductive Carrier where
  | literal (plus : Bool)
  | quoted
  deriving DecidableEq

/-- The number of its octets, and the plus sign. -/
def lengthOctets (plus : Bool) (n : Nat) : Octets := decimal n ++ if plus then [43] else []

/-- The line that announces a literal. -/
def announcement (plus : Bool) (n : Nat) : Octets := 123 :: lengthOctets plus n ++ [125]

/-- A script as it is sent. -/
def Carrier.octets : Carrier → Octets → Octets
  | .literal plus, content => announcement plus content.length ++ lineEnd ++ content
  | .quoted, content => (Str.quoted content).octets

/-- A script that can be sent so. -/
def Carrier.Conforms : Carrier → Octets → Prop
  | .literal _, content => (Str.literal content).Conforms
  | .quoted, content => (Str.quoted content).Conforms

/-- The stream begins with a reply that carries this script. -/
def CarriedBy (c : Carrier) (content stream : Octets) : Prop :=
  c.Conforms content ∧ ∃ (st : Status) (rest : Octets), st.Conforms ∧ st.word = .ok ∧
    stream = c.octets content ++ (lineEnd ++ (st.octets ++ rest))

/-- **The client is faithful** to what it is sent: the script of a reply is its result, and a
stream that begins with no reply is an error, but no panic. -/
structure Faithful (result : Except Fault Octets) (stream : Octets) : Prop where
  reply : ∀ c content, CarriedBy c content stream → result = .ok content
  other : (∀ c content, ¬CarriedBy c content stream) → ∃ e, result = .error e
  returns : result ≠ .error .panics

/-! ## What is read over -/

/-- A line that announces this many octets. -/
def Announces (line : Octets) (n : Int) : Prop :=
  ∃ inner, literalInner (trimmed line) = some inner ∧ atoi (trimSpace inner) = some n

variable (L) in
/-- A line that says nothing to `GetScript`. -/
def Ignored (line : Octets) : Prop :=
  literalInner (trimmed line) = none ∧ isFinalLine L (trimmed line) = false

variable (L) in
/-- A line that says that there is no more, and no failure. -/
def Succeeds (line : Octets) : Prop :=
  isFinalLine L (trimmed line) = true ∧ isFailureLine L (trimmed line) = false

/-- A line that announces more octets, or fewer, than a buffer can have. -/
def Overflows (line : Octets) : Prop := ∃ n, Announces line n ∧ (n < 0 ∨ (maxAlloc : Int) < n)

variable (L) in
/-- From a stream, the octets of the literals that are read, and what is left after them: lines
that say nothing are read over. -/
inductive Scans : Octets → Octets → Octets → Prop
  | done (s : Octets) : Scans s [] s
  | ignored {s line t buf rest : Octets} (hread : readLine s = some (line, t))
      (hline : Ignored L line) (h : Scans t buf rest) : Scans s buf rest
  | literal {s line data t buf rest : Octets} (hread : readLine s = some (line, data ++ t))
      (hline : Announces line data.length) (hlength : data.length ≤ maxAlloc)
      (h : Scans t buf rest) : Scans s (data ++ buf) rest

/-- A reply with its script in a literal, or with an empty script. -/
def PlainReply (stream : Octets) : Prop :=
  ∃ c content, CarriedBy c content stream ∧ (content = [] ∨ ∃ plus, c = .literal plus)

variable (L) in
/-- Before `OK` there is a plain reply and nothing else, and no length is one that a buffer
cannot have. -/
structure Unmistakable (stream : Octets) : Prop where
  plain : ∀ buf rest line t, Scans L stream buf rest → readLine rest = some (line, t) →
    Succeeds L line → PlainReply stream
  fits : ∀ buf rest line t, Scans L stream buf rest → readLine rest = some (line, t) →
    ¬Overflows line

/-! ## The loop -/

section Loop

variable {readErr : String} {line s rest t buf buf' : Octets} {coming : List Octets}

/-- A line takes an octet at least. -/
theorem length_readLine (h : readLine s = some (line, rest)) : rest.length < s.length := by
  rw [readLine] at h
  split at h
  · cases h
  · rename_i hne
    split at h
    · obtain ⟨-, rfl⟩ := Prod.mk.inj (Option.some.inj h)
      exact List.length_pos_iff.mpr hne
    · rename_i hdrop
      obtain ⟨-, rfl⟩ := Prod.mk.inj (Option.some.inj h)
      have hle := (List.dropWhile_suffix (l := s) fun b => b != 10).length_le
      rw [hdrop, List.length_cons] at hle
      exact hle

theorem ignored_blank (h : trimmed line = []) : Ignored L line := by
  rw [Ignored, h]
  exact ⟨rfl, rfl⟩

theorem onScript_ignored (h : Ignored L line) (k : Link) :
    onScript L (trimmed line) buf k = (k, .inl buf) := by
  rw [onScript, h.1, h.2]
  rfl

theorem onScript_literal {data : Octets} (h : Announces line data.length)
    (hlength : data.length ≤ maxAlloc) :
    onScript L (trimmed line) buf ⟨data ++ t, coming⟩ = (⟨t, coming⟩, .inl (buf ++ data)) := by
  obtain ⟨inner, hinner, hn⟩ := h
  rw [onScript, hinner]
  dsimp only
  rw [hn]
  dsimp only
  by_cases hzero : data = []
  · rw [hzero]
    simp
  · have hpos : 0 < data.length := List.length_pos_iff.mpr hzero
    rw [if_neg (by omega), readLiteral, if_neg (by omega), if_neg (by simp)]
    simp

/-- A line after which the reading goes on says nothing, or announces what is read. -/
theorem scans_cons (hread : readLine s = some (line, rest)) {k : Link}
    (hbody : onScript L (trimmed line) buf ⟨rest, coming⟩ = (k, .inl buf')) :
    ∃ data t, k = ⟨t, coming⟩ ∧ buf' = buf ++ data ∧
      ∀ more end', Scans L t more end' → Scans L s (data ++ more) end' := by
  rw [onScript] at hbody
  split at hbody
  · rename_i inner hinner
    split at hbody
    · cases hbody
    · rename_i n hn
      have hline : Announces line n := ⟨inner, hinner, hn⟩
      split at hbody
      · rename_i hzero
        obtain ⟨rfl, hbuf⟩ := Prod.mk.inj hbody
        refine ⟨[], rest, rfl, ?_, fun more end' h => ?_⟩
        · rw [List.append_nil, Sum.inl.inj hbuf]
        · rw [hzero] at hline
          have hdata : readLine s = some (line, [] ++ rest) := hread
          exact .literal hdata hline (Nat.zero_le _) h
      · rw [readLiteral] at hbody
        split at hbody
        · cases hbody
        · rename_i hfits
          split at hbody
          · cases hbody
          · rename_i hcome
            obtain ⟨rfl, hbuf⟩ := Prod.mk.inj hbody
            have htake : (rest.take n.toNat).length = n.toNat :=
              List.length_take_of_le (Nat.le_of_not_lt hcome)
            have hdata : readLine s = some (line, rest.take n.toNat ++ rest.drop n.toNat) := by
              rw [hread, List.take_append_drop]
            have hlength : Announces line (rest.take n.toNat).length := by
              rw [htake, Int.toNat_of_nonneg (by omega)]
              exact hline
            have hsmall : (rest.take n.toNat).length ≤ maxAlloc := by omega
            exact ⟨_, _, rfl, (Sum.inl.inj hbuf).symm, fun more end' h =>
              .literal hdata hlength hsmall h⟩
  · rename_i hinner
    split at hbody
    · cases (Prod.mk.inj hbody).2
    · rename_i hfinal
      obtain ⟨rfl, hbuf⟩ := Prod.mk.inj hbody
      refine ⟨[], rest, rfl, ?_, fun more end' h => ?_⟩
      · rw [List.append_nil, Sum.inl.inj hbuf]
      · exact .ignored hread ⟨hinner, Bool.eq_false_iff.mpr hfinal⟩ h

theorem eachLine_read {n : Nat} (hread : readLine s = some (line, rest))
    (hbody : onScript L (trimmed line) buf ⟨rest, coming⟩ = (⟨t, coming⟩, .inl buf')) :
    eachLine readErr (onScript L) (n + 1) buf ⟨s, coming⟩ =
      eachLine readErr (onScript L) n buf' ⟨t, coming⟩ := by
  rw [eachLine, hread]
  dsimp only
  by_cases hblank : trimmed line = []
  · rw [onScript_ignored (ignored_blank hblank)] at hbody
    obtain ⟨hlink, hbuf⟩ := Prod.mk.inj hbody
    rw [if_pos hblank, hlink, Sum.inl.inj hbuf]
  · rw [if_neg hblank, hbody]

/-- What is read over leaves the loop with the octets of the literals, and turns enough for
what is left. -/
theorem eachLine_scans {more : Octets} (h : Scans L s more rest) :
    ∀ (n : Nat) (buf : Octets), s.length < n → ∃ m, rest.length < m ∧
      eachLine readErr (onScript L) n buf ⟨s, coming⟩ =
        eachLine readErr (onScript L) m (buf ++ more) ⟨rest, coming⟩ := by
  induction h with
  | done s =>
    intro n buf hn
    exact ⟨n, hn, by rw [List.append_nil]⟩
  | @ignored s line t more rest hread hline h ih =>
    intro n buf hn
    obtain ⟨n, rfl⟩ := Nat.exists_eq_add_one_of_ne_zero (Nat.ne_zero_of_lt hn)
    have hshort := length_readLine hread
    obtain ⟨m, hm, heq⟩ := ih n buf (by omega)
    exact ⟨m, hm, (eachLine_read hread (onScript_ignored hline _)).trans heq⟩
  | @literal s line data t more rest hread hline hlength h ih =>
    intro n buf hn
    obtain ⟨n, rfl⟩ := Nat.exists_eq_add_one_of_ne_zero (Nat.ne_zero_of_lt hn)
    have hshort := length_readLine hread
    rw [List.length_append] at hshort
    obtain ⟨m, hm, heq⟩ := ih n (buf ++ data) (by omega)
    refine ⟨m, hm, (eachLine_read hread (onScript_literal hline hlength)).trans ?_⟩
    rw [heq, List.append_assoc]

/-- The loop ends where nothing is left, or at a line that ends it. -/
theorem scans_of_result : ∀ (n : Nat) (buf : Octets) (k : Link) (result : Except Fault Octets),
    (eachLine readErr (onScript L) n buf k).2 = result → result = .error (.read readErr) ∨
      ∃ more rest line t, Scans L k.unread more rest ∧ readLine rest = some (line, t) ∧
        (onScript L (trimmed line) (buf ++ more) ⟨t, k.coming⟩).2 = .inr result := by
  intro n
  induction n with
  | zero =>
    intro buf k result h
    exact .inl h.symm
  | succ n ih =>
    intro buf k result h
    rw [eachLine] at h
    split at h
    · exact .inl h.symm
    · rename_i line rest hread
      split at h
      · rename_i hblank
        obtain hend | ⟨more, end', line', t, hscans, hread', hresult⟩ := ih _ _ _ h
        · exact .inl hend
        · exact .inr ⟨more, end', line', t, .ignored hread (ignored_blank hblank) hscans, hread', hresult⟩
      · split at h
        · rename_i k' buf' hbody
          obtain ⟨data, t, rfl, rfl, hcons⟩ := scans_cons hread hbody
          obtain hend | ⟨more, end', line', t', hscans, hread', hresult⟩ := ih _ _ _ h
          · exact .inl hend
          · rw [List.append_assoc] at hresult
            exact .inr ⟨data ++ more, end', line', t', hcons _ _ hscans, hread', hresult⟩
        · rename_i k' result' hbody
          refine .inr ⟨[], k.unread, line, rest, .done _, hread, ?_⟩
          rw [List.append_nil, hbody, ← h]

end Loop

/-! ## The ends -/

section Ends

variable {name : Text} {k : Link} {line rest t buf more content : Octets} {result : Except Fault Octets}

theorem onScript_ok (hL : UpperASCII L) :
    (onScript L (trimmed line) buf k).2 = .inr (.ok content) ↔ Succeeds L line ∧ content = buf := by
  constructor
  · intro h
    rw [onScript] at h
    split at h
    · split at h
      · cases h
      · split at h
        · cases h
        · rw [readLiteral] at h
          split at h
          · cases h
          · split at h
            · cases h
            · cases h
    · dsimp only at h
      split at h
      · rename_i hfinal
        have hresult := Sum.inr.inj h
        rw [finalResult] at hresult
        split at hresult
        · cases hresult
        · rename_i hsuccess
          exact ⟨⟨hfinal, Bool.eq_false_iff.mpr hsuccess⟩, (Except.ok.inj hresult).symm⟩
      · cases h
  · rintro ⟨hline, rfl⟩
    rw [onScript, literalInner_of_final hL hline.1, hline.1, finalResult, hline.2]
    rfl

theorem onScript_panics :
    (onScript L (trimmed line) buf k).2 = .inr (.error .panics) ↔ Overflows line := by
  constructor
  · intro h
    rw [onScript] at h
    split at h
    · rename_i inner hinner
      split at h
      · cases h
      · rename_i n hn
        split at h
        · cases h
        · rw [readLiteral] at h
          split at h
          · rename_i hlength
            exact ⟨n, ⟨inner, hinner, hn⟩, hlength⟩
          · split at h
            · cases h
            · cases h
    · dsimp only at h
      split at h
      · have hresult := Sum.inr.inj h
        rw [finalResult] at hresult
        split at hresult
        · cases hresult
        · cases hresult
      · cases h
  · rintro ⟨n, ⟨inner, hinner, hn⟩, hlength⟩
    rw [onScript, hinner]
    dsimp only
    rw [hn]
    dsimp only
    rw [if_neg (by omega), readLiteral, if_pos hlength]

/-- The line that ends the reading gives the result. -/
theorem getScript_of_scans (hname : name ≠ []) (hscans : Scans L k.turn.unread more rest)
    (hread : readLine rest = some (line, t))
    (hend : (onScript L (trimmed line) more ⟨t, k.turn.coming⟩).2 = .inr result) :
    (k.getScript L name).2 = result := by
  rw [Link.getScript, if_neg hname]
  have henough : k.turn.unread.length < k.turn.size + 1 := by
    rw [Link.size]
    omega
  obtain ⟨m, hm, heq⟩ : ∃ m, rest.length < m ∧
      eachLine "GETSCRIPT read failed: " (onScript L) (k.turn.size + 1) [] k.turn =
        eachLine "GETSCRIPT read failed: " (onScript L) m ([] ++ more) ⟨rest, k.turn.coming⟩ :=
    eachLine_scans hscans _ [] henough
  obtain ⟨m, rfl⟩ := Nat.exists_eq_add_one_of_ne_zero (Nat.ne_zero_of_lt hm)
  have hblank : trimmed line ≠ [] := by
    intro hblank
    rw [onScript_ignored (ignored_blank hblank)] at hend
    cases hend
  rw [heq, eachLine, hread, List.nil_append]
  dsimp only
  rw [if_neg hblank]
  cases hbody : onScript L (trimmed line) more ⟨t, k.turn.coming⟩ with
  | mk k' r =>
    rw [hbody] at hend
    dsimp only at hend
    rw [hend]

/-- **Success** is a line that says so after the octets of the literals. -/
theorem getScript_ok (hL : UpperASCII L) (hname : name ≠ []) :
    (k.getScript L name).2 = .ok content ↔ ∃ rest line t,
      Scans L k.turn.unread content rest ∧ readLine rest = some (line, t) ∧ Succeeds L line := by
  constructor
  · intro h
    rw [Link.getScript, if_neg hname] at h
    obtain hend | ⟨more, rest, line, t, hscans, hread, hend⟩ := scans_of_result _ _ _ _ h
    · cases hend
    · obtain ⟨hline, rfl⟩ := (onScript_ok hL).mp hend
      exact ⟨rest, line, t, hscans, hread, hline⟩
  · rintro ⟨rest, line, t, hscans, hread, hline⟩
    exact getScript_of_scans hname hscans hread ((onScript_ok hL).mpr ⟨hline, rfl⟩)

/-- **A panic** is a line that announces a length that no buffer has. -/
theorem getScript_panics (hname : name ≠ []) :
    (k.getScript L name).2 = .error .panics ↔ ∃ more rest line t,
      Scans L k.turn.unread more rest ∧ readLine rest = some (line, t) ∧ Overflows line := by
  constructor
  · intro h
    rw [Link.getScript, if_neg hname] at h
    obtain hend | ⟨more, rest, line, t, hscans, hread, hend⟩ := scans_of_result _ _ _ _ h
    · cases hend
    · exact ⟨more, rest, line, t, hscans, hread, onScript_panics.mp hend⟩
  · rintro ⟨more, rest, line, t, hscans, hread, hline⟩
    exact getScript_of_scans hname hscans hread (onScript_panics.mpr hline)

end Ends

/-! ## Replies as the client reads them -/

section Replies

variable {c : Carrier} {content stream rest : Octets}

/-- What the client keeps of a script. -/
def Carrier.kept : Carrier → Octets → Octets
  | .literal _, content => content
  | .quoted, _ => []

theorem lengthOctets_ascii {plus : Bool} {n : Nat} {b : UInt8} (h : b ∈ lengthOctets plus n) :
    b < 0x80 ∧ b ≠ 10 := by
  obtain h | h := List.mem_append.mp h
  · exact ⟨(digit_ascii h).1, (digit_ascii h).2.1⟩
  · cases plus with
    | false => cases h
    | true =>
      obtain rfl := List.mem_singleton.mp h
      decide

theorem announces_announcement {plus : Bool} {n : Nat} (h : n < 2 ^ 32) :
    Announces (announcement plus n) n := by
  refine ⟨digits n, ?_, atoi_digits h⟩
  have htrim := trimmed_braces (s := lengthOctets plus n) fun b hb => (lengthOctets_ascii hb).1
  rw [announcement, htrim, literalInner_braces]
  cases plus with
  | false =>
    have hlast := List.dropLast_append_getLast (digits_ne_nil n)
    have hplus := trimSuffix_of_last (digit_char (List.getLast_mem (digits_ne_nil n))).2.1
      (digits n).dropLast
    rw [hlast] at hplus
    rw [lengthOctets, if_neg nofun, List.append_nil, ← digits, hplus]
  | true =>
    rw [lengthOctets, if_pos rfl, List.map_append, ← digits]
    have hplus : ['+'].isSuffixOf (digits n ++ ['+']) = true :=
      List.isSuffixOf_iff_suffix.mpr (List.suffix_append _ _)
    change some (trimSuffix ['+'] (digits n ++ ['+'])) = _
    rw [trimSuffix, if_pos hplus, List.length_append, Nat.add_sub_cancel, List.take_left]

theorem scans_octets (hL : UpperASCII L) (h : c.Conforms content) :
    Scans L (c.octets content ++ (lineEnd ++ rest)) (c.kept content) rest := by
  cases c with
  | literal plus =>
    have hfree : 10 ∉ announcement plus content.length ++ [13] := by
      have hlength : 10 ∉ lengthOctets plus content.length := fun hmem => (lengthOctets_ascii hmem).2 rfl
      rw [announcement]
      simp [hlength]
    have hfirst : readLine ((Carrier.literal plus).octets content ++ (lineEnd ++ rest)) =
        some (announcement plus content.length, content ++ (lineEnd ++ rest)) := by
      have hline := readLine_line hfree (content ++ (lineEnd ++ rest))
      rw [dropCR_append] at hline
      rw [← hline, Carrier.octets, lineEnd]
      simp
    have hfeed : 10 ∉ ([13] : Octets) := by simp
    have hsecond : readLine (lineEnd ++ rest) = some ([], rest) := readLine_line hfeed rest
    have hlength : content.length ≤ maxAlloc := Nat.le_trans (Nat.le_of_lt h) (by simp [maxAlloc])
    have hscans := Scans.literal (L := L) hfirst (announces_announcement h) hlength
      (.ignored hsecond (ignored_blank rfl) (.done rest))
    rwa [List.append_nil] at hscans
  | quoted =>
    have hquoted : (Str.quoted content).Conforms := h
    have hfree : 10 ∉ (Str.quoted content).octets ++ [13] := by
      have hbody : 10 ∉ (Str.quoted content).octets := fun hmem => (mem_octets_str hquoted).mp hmem
      simp [hbody]
    have hread : readLine (Carrier.quoted.octets content ++ (lineEnd ++ rest)) =
        some ((Str.quoted content).octets, rest) := by
      have hline := readLine_line hfree rest
      rw [dropCR_append] at hline
      rw [← hline, Carrier.octets, lineEnd]
      simp
    obtain ⟨t, ht⟩ := trimmed_cons (b := 34) (by decide) (by decide) (escapeQuoted content ++ [34])
    have hignored : Ignored L (Str.quoted content).octets := by
      have htrim : trimmed (Str.quoted content).octets = '"' :: t := ht
      rw [Ignored, htrim]
      exact ⟨rfl, not_final_of_head hL (.inl rfl) t⟩
    exact .ignored hread hignored (.done rest)

/-- The status of a reply is a line of success. -/
theorem succeeds_status (hL : UpperASCII L) {st : Status} (h : st.Conforms) (hok : st.word = .ok)
    (rest : Octets) : ∃ line t, readLine (st.octets ++ rest) = some (line, t) ∧ Succeeds L line := by
  obtain ⟨line, t, hoctets, hfree, -, hbegins⟩ := status_line hL h
  refine ⟨dropCR line, t ++ rest, ?_, name_final (by rw [hok]; nofun) hbegins, ?_⟩
  · rw [hoctets, List.append_assoc, List.cons_append, readLine_line hfree]
  · rw [hok] at hbegins
    exact isFailureLine_of_ok hbegins

/-- **A reply is read** with what is kept of its script. -/
theorem getScript_carried (hL : UpperASCII L) {name : Text} (hname : name ≠ []) {k : Link}
    (h : CarriedBy c content k.turn.unread) : (k.getScript L name).2 = .ok (c.kept content) := by
  obtain ⟨hcontent, st, rest, hst, hok, hstream⟩ := h
  obtain ⟨line, t, hread, hline⟩ := succeeds_status hL hst hok rest
  refine (getScript_ok hL hname).mpr ⟨st.octets ++ rest, line, t, ?_, hread, hline⟩
  rw [hstream]
  exact scans_octets hL hcontent

/-- No quote stands in a script in quotes without a backslash. -/
theorem escapeQuoted_cons (b : UInt8) (s : Octets) :
    ∃ d t, escapeQuoted (b :: s) = d :: t ∧ d ≠ 34 := by
  rw [escapeQuoted, List.flatMap_cons]
  split
  · exact ⟨92, _, rfl, by decide⟩
  · rename_i hplain
    exact ⟨b, _, rfl, fun h => hplain (.inl h)⟩

/-- A script in quotes is empty where the reply is a plain one. -/
theorem nil_of_plain (h : CarriedBy .quoted content stream) (hplain : PlainReply stream) :
    content = [] := by
  obtain ⟨-, st, rest, -, -, hstream⟩ := h
  obtain ⟨c', content', ⟨-, st', rest', -, -, hstream'⟩, hcase⟩ := hplain
  rw [hstream'] at hstream
  cases c' with
  | literal plus => cases (List.cons.inj hstream).1
  | quoted =>
    obtain rfl | ⟨_, hcarrier⟩ := hcase
    · cases content with
      | nil => rfl
      | cons b content =>
        -- the second octet closes the quotes, or is one of the script
        obtain ⟨d, t, ht, hd⟩ := escapeQuoted_cons b content
        rw [Carrier.octets, Carrier.octets, Str.octets, Str.octets, ht] at hstream
        exact absurd (List.cons.inj (List.cons.inj hstream).2).1.symm hd
    · cases hcarrier

end Replies

/-- **The client is faithful** exactly where success comes after a plain reply, and no announced
length is one that a buffer cannot have. -/
theorem faithful_iff (L : TextLib) (hL : UpperASCII L) {name : Text} (hname : name ≠ []) (k : Link) :
    Faithful (k.getScript L name).2 k.turn.unread ↔ Unmistakable L k.turn.unread := by
  constructor
  · rintro ⟨hreply, hother, hreturns⟩
    refine ⟨fun buf rest line t hscans hread hline => ?_, fun buf rest line t hscans hread hline => ?_⟩
    · have hok := (getScript_ok hL hname).mpr ⟨rest, line, t, hscans, hread, hline⟩
      by_contra hplain
      have hnone : ∀ c content, ¬CarriedBy c content k.turn.unread := by
        intro c content h
        cases c with
        | literal plus => exact hplain ⟨_, _, h, .inr ⟨plus, rfl⟩⟩
        | quoted =>
          have hnil := (getScript_carried hL hname h).symm.trans (hreply _ _ h)
          exact hplain ⟨_, _, h, .inl (Except.ok.inj hnil).symm⟩
      obtain ⟨e, he⟩ := hother hnone
      rw [hok] at he
      cases he
    · exact hreturns ((getScript_panics hname).mpr ⟨buf, rest, line, t, hscans, hread, hline⟩)
  · rintro ⟨hplain, hfits⟩
    refine ⟨fun c content h => ?_, fun hnone => ?_, fun hpanics => ?_⟩
    · have hok := getScript_carried hL hname h
      cases c with
      | literal plus => exact hok
      | quoted =>
        obtain ⟨rest, line, t, hscans, hread, hline⟩ := (getScript_ok hL hname).mp hok
        rw [hok, nil_of_plain h (hplain _ _ _ _ hscans hread hline)]
        rfl
    · cases hresult : (k.getScript L name).2 with
      | error e => exact ⟨e, rfl⟩
      | ok content =>
        obtain ⟨rest, line, t, hscans, hread, hline⟩ := (getScript_ok hL hname).mp hresult
        obtain ⟨c, content', h, -⟩ := hplain _ _ _ _ hscans hread hline
        exact absurd h (hnone c content')
    · obtain ⟨more, rest, line, t, hscans, hread, hline⟩ := (getScript_panics hname).mp hpanics
      exact hfits _ _ _ _ hscans hread hline

/-- A script in a literal for which the sender does not wait. -/
def keepReply : Octets := [123, 53, 43, 125, 13, 10, 107, 101, 101, 112, 59, 13, 10, 79, 75, 13, 10]

theorem keepReply_carried : CarriedBy (.literal true) [107, 101, 101, 112, 59] keepReply :=
  ⟨by simp [Carrier.Conforms, Str.Conforms], ⟨.ok, [79, 75], none, none⟩, [],
    ⟨by simp, rfl, by simp, by simp⟩, rfl, by decide⟩

theorem keepReply_unmistakable : Unmistakable asciiText keepReply where
  plain _ _ _ _ _ _ _ := ⟨_, _, keepReply_carried, .inr ⟨true, rfl⟩⟩
  fits buf rest line t hscans hread hline := by
    have hpanics := (getScript_panics (k := Link.mk [] [keepReply]) (L := asciiText)
      (List.cons_ne_nil 'a' [])).mpr ⟨buf, rest, line, t, hscans, hread, hline⟩
    have hread : ((Link.mk [] [keepReply]).getScript asciiText ['a']).2 = .ok [107, 101, 101, 112, 59] := rfl
    rw [hread] at hpanics
    cases hpanics

theorem faithful_iff_keep : Unmistakable asciiText keepReply ∧
    Faithful ((Link.mk [] [keepReply]).getScript asciiText "a".toList).2 keepReply :=
  ⟨keepReply_unmistakable,
    (faithful_iff asciiText (fun _ _ => rfl) (List.cons_ne_nil _ _) (Link.mk [] [_])).mpr
      keepReply_unmistakable⟩

/-- A script in quotes is lost, and a negative length panics. -/
theorem quoted_not_faithful :
    ¬Faithful ((Link.mk [] [[34, 107, 101, 101, 112, 59, 34, 13, 10, 79, 75, 13, 10]]).getScript
        asciiText "a".toList).2 [34, 107, 101, 101, 112, 59, 34, 13, 10, 79, 75, 13, 10] ∧
      ¬Faithful ((Link.mk [] [[123, 45, 49, 125, 13, 10]]).getScript asciiText "a".toList).2
        [123, 45, 49, 125, 13, 10] := by
  refine ⟨fun h => ?_, fun h => h.returns rfl⟩
  have hstatus : (Status.mk .ok [79, 75] none none).Conforms := ⟨by simp, rfl, by simp, by simp⟩
  have hquoted : (Str.quoted [107, 101, 101, 112, 59]).Conforms := by simp [Str.Conforms]
  have hkept := h.reply .quoted [107, 101, 101, 112, 59] ⟨hquoted, _, [], hstatus, rfl, rfl⟩
  have hlost : ((Link.mk [] [[34, 107, 101, 101, 112, 59, 34, 13, 10, 79, 75, 13, 10]]).getScript
      asciiText "a".toList).2 = .ok [] := rfl
  rw [hlost] at hkept
  cases hkept

end E2Mail.ManageSieve
