import E2Mail.Sieve.ScriptList
import Mathlib.Data.List.Count

/-!
# Script names on the wire

The client puts a name in quotes, and a backslash before every quote in it. A backslash of the
name itself and a line end go out as they are.

* `NamedCommand`, `NamedCommand.send` — the commands with a name, as they are sent;
* `QuotedText` — what a string in quotes says in RFC 5804;
* `SafelyNamed` — a command is one line with the name in it, and the name can be read back;
* `safelyNamed_iff` — the names for which it is so.
-/

namespace E2Mail.ManageSieve

open Lib

/-! ## What the client sends -/

/-- `escape`. -/
def escape (s : Octets) : Octets := s.flatMap fun b => if b = 34 then [92, 34] else [b]

/-- The commands that carry the name of a script. -/
inductive NamedCommand where
  | getScript
  | putScript (content : Octets)
  | deleteScript
  | setActive
  | haveSpace (size : Int)
  deriving DecidableEq

/-- An integer as `%d` prints it. -/
def printed (n : Int) : Octets := if n < 0 then 45 :: decimal n.natAbs else decimal n.natAbs

namespace NamedCommand

/-- The word of the command. -/
def verb : NamedCommand → Octets
  | .getScript => [71, 69, 84, 83, 67, 82, 73, 80, 84]
  | .putScript _ => [80, 85, 84, 83, 67, 82, 73, 80, 84]
  | .deleteScript => [68, 69, 76, 69, 84, 69, 83, 67, 82, 73, 80, 84]
  | .setActive => [83, 69, 84, 65, 67, 84, 73, 86, 69]
  | .haveSpace _ => [72, 65, 86, 69, 83, 80, 65, 67, 69]

/-- What stands after the name. -/
def args : NamedCommand → Octets
  | .putScript content => 32 :: 123 :: decimal content.length ++ [43, 125]
  | .haveSpace size => 32 :: printed size
  | _ => []

/-- What follows the line. -/
def payload : NamedCommand → Octets
  | .putScript content => content ++ lineEnd
  | _ => []

/-- Whether the client asks for a name. -/
def requiresName : NamedCommand → Bool
  | .getScript | .putScript _ | .deleteScript => true
  | .setActive | .haveSpace _ => false

/-- The line of a command, as `cfmtf` gets it. -/
def line (cmd : NamedCommand) (name : Octets) : Octets :=
  cmd.verb ++ 32 :: 34 :: (escape name ++ 34 :: cmd.args)

/-- What goes over the connection: nothing without a name where one is required. -/
def send (cmd : NamedCommand) (name : Octets) : Option Octets :=
  if cmd.requiresName ∧ name = [] then none else some (cmd.line name ++ lineEnd ++ cmd.payload)

end NamedCommand

/-! ## What a server reads -/

/-- A text between quotes, and what it says: characters that stand for themselves, and a backslash
before a quote or another backslash. -/
inductive QuotedText : Octets → Octets → Prop where
  | nil : QuotedText [] []
  | safe {c : Char} {s t : Octets} (hc : c.toNat ≠ 0 ∧ c.toNat ≠ 10 ∧ c.toNat ≠ 13)
      (hplain : ¬ IsSpecial c) (h : QuotedText s t) :
      QuotedText (String.utf8EncodeChar c ++ s) (String.utf8EncodeChar c ++ t)
  | special {b : UInt8} {s t : Octets} (hb : b = 34 ∨ b = 92) (h : QuotedText s t) :
      QuotedText (92 :: b :: s) (b :: t)

/-- A line is this command with this name, in quotes and not too long for them. -/
structure Carries (cmd : NamedCommand) (name line : Octets) : Prop where
  oneLine : 10 ∉ line ∧ 13 ∉ line
  quoted : ∃ body, line = cmd.verb ++ 32 :: 34 :: (body ++ 34 :: cmd.args) ∧
    QuotedText body name ∧ body.length ≤ 1024

/-- What is sent is one line with the name, and what belongs to it; and the name is read back
from the server's quotes. -/
structure SafelyNamed (cmd : NamedCommand) (name : Octets) : Prop where
  oneCommand : ∀ sent ∈ cmd.send name, ∃ line,
    sent = line ++ lineEnd ++ cmd.payload ∧ Carries cmd name line
  recovered : (extractQuoted (decode (34 :: escapeQuoted name ++ [34]))).map utf8Octets = [name]

/-- A name in UTF-8 without line ends, zeros and backslashes, and not too long. -/
structure NameFits (name : Octets) : Prop where
  utf8 : ∃ s, name = utf8Octets s
  plain : ∀ b ∈ name, b ≠ 0 ∧ b ≠ 10 ∧ b ≠ 13 ∧ b ≠ 92
  short : name.length + name.count 34 ≤ 1024

/-! ## Quoted texts -/

/-- A text in quotes says one thing, and is written in one way. -/
theorem QuotedText.eq {body name : Octets} (h : QuotedText body name) :
    body = escapeQuoted name ∧ ∃ s, Quotable s ∧ name = utf8Octets s := by
  induction h with
  | nil => exact ⟨rfl, [], fun c hc => absurd hc List.not_mem_nil, rfl⟩
  | @safe c s t hc hplain h ih =>
    obtain ⟨hbody, name, hname, hoctets⟩ := ih
    refine ⟨?_, c :: name, List.forall_mem_cons.2 ⟨hc, hname⟩, ?_⟩
    · rw [escapeQuoted, List.flatMap_append, ← escapeQuoted, ← escapeQuoted,
        escapeQuoted_of_not_mem (not_special_octets hplain), ← hbody]
    · rw [hoctets]
      rfl
  | @special b s t hb h ih =>
    obtain ⟨hbody, name, hname, hoctets⟩ := ih
    refine ⟨?_, ?_⟩
    · rw [escapeQuoted, List.flatMap_cons, if_pos hb, ← escapeQuoted, ← hbody]
      rfl
    · obtain rfl | rfl := hb
      · refine ⟨'"' :: name, List.forall_mem_cons.2 ⟨by decide, hname⟩, ?_⟩
        rw [hoctets]
        rfl
      · refine ⟨'\\' :: name, List.forall_mem_cons.2 ⟨by decide, hname⟩, ?_⟩
        rw [hoctets]
        rfl

/-- Every text that a quoted string can have is said by one. -/
theorem quotedText_escapeQuoted {s : Text} (hs : Quotable s) :
    QuotedText (escapeQuoted (utf8Octets s)) (utf8Octets s) := by
  induction s with
  | nil => exact .nil
  | cons c s ih =>
    obtain ⟨hc, hrest⟩ := List.forall_mem_cons.1 hs
    have hsplit : escapeQuoted (utf8Octets (c :: s)) =
        escapeQuoted (String.utf8EncodeChar c) ++ escapeQuoted (utf8Octets s) := List.flatMap_append
    have hcons : utf8Octets (c :: s) = String.utf8EncodeChar c ++ utf8Octets s := rfl
    rw [hsplit, hcons]
    by_cases hspecial : IsSpecial c
    · obtain rfl | rfl := hspecial
      · exact .special (.inl rfl) (ih hrest)
      · exact .special (.inr rfl) (ih hrest)
    · rw [escapeQuoted_of_not_mem (not_special_octets hspecial)]
      exact .safe hc hspecial (ih hrest)

/-! ## The commands -/

theorem escape_eq_escapeQuoted {name : Octets} (h : 92 ∉ name) : escape name = escapeQuoted name := by
  refine List.flatMap_congr fun b hb => ?_
  have hb92 : b ≠ 92 := fun heq => h (heq ▸ hb)
  by_cases hb34 : b = 34
  · rw [if_pos hb34, if_pos (.inl hb34), hb34]
  · rw [if_neg hb34, if_neg (not_or.2 ⟨hb34, hb92⟩)]

theorem length_escape (name : Octets) : (escape name).length = name.length + name.count 34 := by
  induction name with
  | nil => rfl
  | cons b name ih =>
    rw [escape, List.flatMap_cons, ← escape, List.length_append, ih, List.length_cons, List.count_cons]
    by_cases hb : b = 34
    · rw [if_pos hb, if_pos (beq_iff_eq.2 hb), List.length_cons, List.length_singleton]
      omega
    · rw [if_neg hb, if_neg (mt beq_iff_eq.1 hb), List.length_singleton]
      omega

theorem length_escapeQuoted (name : Octets) :
    (escapeQuoted name).length = name.length + name.count 34 + name.count 92 := by
  induction name with
  | nil => rfl
  | cons b name ih =>
    rw [escapeQuoted, List.flatMap_cons, ← escapeQuoted, List.length_append, ih, List.length_cons,
      List.count_cons, List.count_cons]
    by_cases hquote : b = 34
    · rw [hquote]
      simp
      omega
    · by_cases hslash : b = 92
      · rw [hslash]
        simp
        omega
      · simp [hquote, hslash]
        omega

/-- A name that goes out as the protocol has it has no backslash. -/
theorem not_mem_of_escape_eq {name : Octets} (h : escape name = escapeQuoted name) : 92 ∉ name := by
  have hlength := congrArg List.length h
  rw [length_escape, length_escapeQuoted] at hlength
  exact List.count_eq_zero.1 (by omega)

theorem mem_escape {name : Octets} {b : UInt8} (h : b ∈ escape name) : b ∈ name ∨ b = 92 := by
  obtain ⟨c, hc, hb⟩ := List.mem_flatMap.1 h
  split at hb
  · rename_i hquote
    obtain rfl | hb := List.mem_cons.1 hb
    · exact .inr rfl
    · rw [List.mem_singleton.1 hb, ← hquote]
      exact .inl hc
  · rw [List.mem_singleton.1 hb]
    exact .inl hc

theorem not_mem_verb (cmd : NamedCommand) : 10 ∉ cmd.verb ∧ 13 ∉ cmd.verb := by
  cases cmd with
  | putScript content => simp [NamedCommand.verb]
  | haveSpace size => simp [NamedCommand.verb]
  | _ => decide

/-- An ASCII character is an octet of a text. -/
theorem mem_utf8Octets {s : Text} {c : Char} (hc : c ∈ s) (h : c.toNat < 0x80) :
    UInt8.ofNat c.toNat ∈ utf8Octets s := by
  refine List.mem_flatMap.2 ⟨c, hc, ?_⟩
  have hle : c.val.toNat ≤ 0x7f := Nat.le_of_lt_succ h
  rw [String.utf8EncodeChar]
  rw [if_pos hle]
  exact List.mem_singleton_self _

theorem not_mem_args (cmd : NamedCommand) : 10 ∉ cmd.args ∧ 13 ∉ cmd.args := by
  have hdecimal : ∀ n, 10 ∉ decimal n ∧ 13 ∉ decimal n := fun n =>
    ⟨fun h => (digit_ascii h).2.1 rfl, fun h => (digit_ascii h).2.2.1 rfl⟩
  cases cmd with
  | putScript content => simp [NamedCommand.args, hdecimal]
  | haveSpace size =>
    rw [NamedCommand.args, printed]
    split
    · simp [hdecimal]
    · simp [hdecimal]
  | _ => decide

/-- A name that fits goes out in one line. -/
theorem carries_line (cmd : NamedCommand) {name : Octets} (h : NameFits name) :
    Carries cmd name (cmd.line name) := by
  obtain ⟨⟨s, rfl⟩, hplain, hshort⟩ := h
  have hescape : escape (utf8Octets s) = escapeQuoted (utf8Octets s) :=
    escape_eq_escapeQuoted fun hmem => (hplain 92 hmem).2.2.2 rfl
  have hquotable : Quotable s := by
    intro c hc
    refine ⟨?_, ?_, ?_⟩ <;>
    · intro hnat
      have hoctet := hplain _ (mem_utf8Octets hc (by omega))
      rw [hnat] at hoctet
      exact absurd hoctet (by decide)
  have hfree : ∀ b, b = 10 ∨ b = 13 → b ∉ escape (utf8Octets s) := by
    intro b hb hmem
    obtain hmem | rfl := mem_escape hmem
    · exact hb.elim (hplain b hmem).2.1 (hplain b hmem).2.2.1
    · revert hb
      decide
  have hverb := not_mem_verb cmd
  have hargs := not_mem_args cmd
  refine ⟨?_, escape (utf8Octets s), rfl, ?_, ?_⟩
  · rw [NamedCommand.line]
    simp [hverb, hargs, hfree]
  · rw [hescape]
    exact quotedText_escapeQuoted hquotable
  · rwa [length_escape]

/-- Such a name is read back. -/
theorem extractQuoted_escapeQuoted (s : Text) :
    extractQuoted (decode (34 :: escapeQuoted (utf8Octets s) ++ [34])) = [s] := by
  have hrow := decode_row ⟨s, false⟩
  have hbody : (ScriptInfo.row ⟨s, false⟩).body = 34 :: escapeQuoted (utf8Octets s) ++ [34] := rfl
  rw [← hbody, hrow]
  exact extractQuoted_quotedLine ⟨s, false⟩

theorem safelyNamed_of_fits (cmd : NamedCommand) {name : Octets} (h : NameFits name) :
    SafelyNamed cmd name := by
  refine ⟨fun sent hsent => ⟨cmd.line name, ?_, carries_line cmd h⟩, ?_⟩
  · rw [NamedCommand.send] at hsent
    split at hsent
    · cases hsent
    · exact (Option.some.inj hsent).symm
  · obtain ⟨s, rfl⟩ := h.utf8
    rw [extractQuoted_escapeQuoted]
    rfl

/-- What is sent safely has a name that fits. -/
theorem fits_of_safelyNamed {cmd : NamedCommand} {name : Octets} (h : SafelyNamed cmd name) :
    NameFits name := by
  by_cases hname : name = []
  · rw [hname]
    exact ⟨⟨[], rfl⟩, fun b hb => absurd hb List.not_mem_nil, Nat.zero_le 1024⟩
  · have hsend : cmd.send name = some (cmd.line name ++ lineEnd ++ cmd.payload) :=
      if_neg fun h => hname h.2
    obtain ⟨line, hsent, -, body, hline, hquoted, hshort⟩ := h.oneCommand _ hsend
    have hbody : escape name = body := by
      have hlines := List.append_cancel_right (List.append_cancel_right hsent)
      rw [hline, NamedCommand.line] at hlines
      have hrest := (List.cons.inj (List.cons.inj (List.append_cancel_left hlines)).2).2
      exact List.append_cancel_right hrest
    obtain ⟨heq, s, hs, hutf8⟩ := hquoted.eq
    have hslash : 92 ∉ name := not_mem_of_escape_eq (hbody.trans heq)
    refine ⟨⟨s, hutf8⟩, fun b hb => ?_, ?_⟩
    · have hb' := conforms_name hs b (hutf8 ▸ hb)
      exact ⟨hb'.1, hb'.2.1, hb'.2.2, fun heq => hslash (heq ▸ hb)⟩
    · rwa [← length_escape, hbody]

/-- **A command is safe** exactly for a name that fits. -/
theorem safelyNamed_iff (cmd : NamedCommand) (name : Octets) :
    SafelyNamed cmd name ↔ NameFits name :=
  ⟨fits_of_safelyNamed, safelyNamed_of_fits cmd⟩

/-- `x`, a line end and a second command. -/
def twoLines : Octets := [120, 13, 10, 76, 79, 71, 79, 85, 84, 13, 10]

/-- **A name with a line end** is a second command. -/
theorem twoLines_not_safe : ¬ ∀ cmd name, SafelyNamed cmd name := by
  intro hall
  exact absurd (fits_of_safelyNamed (hall .getScript twoLines)).plain (by decide)

/-- The server gets `LOGOUT` on a line of its own. -/
example : NamedCommand.getScript.send twoLines =
    some ([71, 69, 84, 83, 67, 82, 73, 80, 84, 32, 34, 120] ++ lineEnd ++
      [76, 79, 71, 79, 85, 84] ++ lineEnd ++ [34] ++ lineEnd) := by
  decide

end E2Mail.ManageSieve
