import Mathlib.Data.List.Basic

/-!
# Lines of octets

What a client of a line protocol reads from a stream of octets, and how it takes the
octets of a line for characters.

* `readLine` — one line and what is left of the stream;
* `pieces`, `unlines` — a text and its lines;
* `decode` — UTF-8, with U+FFFD for what is none;
* `decode_utf8` — a text is read back from its octets.
-/

namespace E2Mail.Lib

/-- What goes over a connection. -/
abbrev Octets := List UInt8

/-! ## Reading a line -/

/-- A line without the carriage return at its end. -/
def dropCR (line : Octets) : Octets := if line.getLast? = some 13 then line.dropLast else line

/-- The next line without its end, and what is left. What is not ended is a line too once
nothing more comes. -/
def readLine (s : Octets) : Option (Octets × Octets) :=
  if s = [] then none
  else
    match s.dropWhile (· != 10) with
    | [] => some (s, [])
    | _ :: rest => some (dropCR (s.takeWhile (· != 10)), rest)

/-- What stands between the line feeds. -/
def pieces : Octets → List Octets
  | [] => [[]]
  | b :: s => if b = 10 then [] :: pieces s else (pieces s).modifyHead (b :: ·)

/-- The lines, each with a line feed at its end. -/
def unlines (lines : List Octets) : Octets := lines.flatMap (· ++ [10])

theorem pieces_ne_nil (s : Octets) : pieces s ≠ [] := by
  induction s with
  | nil => exact List.cons_ne_nil _ _
  | cons b s ih =>
    rw [pieces]
    split
    · exact List.cons_ne_nil _ _
    · cases hs : pieces s with
      | nil => exact absurd hs ih
      | cons line lines => exact List.cons_ne_nil _ _

/-- A text is its pieces with line feeds between them. -/
theorem unlines_pieces (s : Octets) : unlines (pieces s) = s ++ [10] := by
  induction s with
  | nil => rfl
  | cons b s ih =>
    rw [pieces]
    split
    · rename_i hb
      rw [hb, unlines, List.flatMap_cons, ← unlines, ih]
      rfl
    · cases hs : pieces s with
      | nil => exact absurd hs (pieces_ne_nil s)
      | cons line lines =>
        rw [hs, unlines, List.flatMap_cons] at ih
        rw [List.modifyHead_cons, unlines, List.flatMap_cons, List.cons_append, List.cons_append,
          List.cons_append, ih]

theorem not_mem_pieces {s line : Octets} (h : line ∈ pieces s) : 10 ∉ line := by
  induction s generalizing line with
  | nil =>
    rw [List.mem_singleton.mp h]
    exact List.not_mem_nil
  | cons b s ih =>
    rw [pieces] at h
    split at h
    · obtain rfl | h := List.mem_cons.mp h
      · exact List.not_mem_nil
      · exact ih h
    · rename_i hb
      cases hs : pieces s with
      | nil => exact absurd hs (pieces_ne_nil s)
      | cons first lines =>
        rw [hs] at h ih
        obtain rfl | h := List.mem_cons.mp h
        · exact fun hmem => (List.mem_cons.mp hmem).elim (fun heq => hb heq.symm)
            (ih List.mem_cons_self)
        · exact ih (List.mem_cons_of_mem _ h)

/-- A text without a line feed is one line. -/
theorem pieces_of_not_mem {s : Octets} (h : 10 ∉ s) : pieces s = [s] := by
  induction s with
  | nil => rfl
  | cons b s ih =>
    obtain ⟨hb, hs⟩ := List.ne_and_not_mem_of_not_mem_cons h
    rw [pieces, if_neg (Ne.symm hb), ih hs]
    rfl

/-- The lines of two texts with a line feed between them. -/
theorem pieces_append (s t : Octets) : pieces (s ++ 10 :: t) = pieces s ++ pieces t := by
  induction s with
  | nil => rfl
  | cons b s ih =>
    rw [List.cons_append, pieces, pieces, ih]
    split
    · rfl
    · cases hs : pieces s with
      | nil => exact absurd hs (pieces_ne_nil s)
      | cons line lines => rfl

theorem unlines_append (a b : List Octets) : unlines (a ++ b) = unlines a ++ unlines b :=
  List.flatMap_append

theorem length_le_unlines (lines : List Octets) : lines.length ≤ (unlines lines).length := by
  induction lines with
  | nil => exact Nat.le_refl 0
  | cons line lines ih =>
    rw [unlines, List.flatMap_cons, ← unlines, List.length_append, List.length_append,
      List.length_cons, List.length_singleton]
    omega

theorem ne_lineFeed {line : Octets} (h : 10 ∉ line) : ∀ b ∈ line, (b != 10) = true := by
  intro b hb
  refine bne_iff_ne.mpr fun heq => h ?_
  rwa [heq] at hb

theorem takeWhile_line {line : Octets} (h : 10 ∉ line) (rest : Octets) :
    (line ++ 10 :: rest).takeWhile (· != 10) = line := by
  rw [List.takeWhile_append_of_pos (ne_lineFeed h)]
  simp

theorem dropWhile_line {line : Octets} (h : 10 ∉ line) (rest : Octets) :
    (line ++ 10 :: rest).dropWhile (· != 10) = 10 :: rest := by
  rw [List.dropWhile_append_of_pos (ne_lineFeed h)]
  simp

/-- **A line is read** up to its line feed. -/
theorem readLine_line {line : Octets} (h : 10 ∉ line) (rest : Octets) :
    readLine (line ++ 10 :: rest) = some (dropCR line, rest) := by
  rw [readLine, if_neg (List.append_ne_nil_of_right_ne_nil _ (List.cons_ne_nil _ _)),
    dropWhile_line h, takeWhile_line h]

theorem dropCR_append (line : Octets) : dropCR (line ++ [13]) = line := by
  rw [dropCR, List.getLast?_concat, if_pos rfl, List.dropLast_concat]

/-! ## Characters -/

/-- What an octet begins: the first bits of a character, and the octets to come. -/
def leading (b : UInt8) : Option (Nat × Nat) :=
  if b < 0x80 then some (b.toNat, 0)
  else if 0xC2 ≤ b && b ≤ 0xDF then some (b.toNat - 0xC0, 1)
  else if 0xE0 ≤ b && b ≤ 0xEF then some (b.toNat - 0xE0, 2)
  else if 0xF0 ≤ b && b ≤ 0xF4 then some (b.toNat - 0xF0, 3)
  else none

/-- The smallest number that needs so many octets more. -/
def smallest : Nat → Nat
  | 0 => 0
  | 1 => 0x80
  | 2 => 0x800
  | _ => 0x10000

/-- The character that an octet begins, and the number of its further octets. -/
def decodeRune (b : UInt8) (s : Octets) : Char × Nat :=
  match leading b with
  | none => (Char.ofNat 0xFFFD, 0)
  | some (first, more) =>
    let tail := s.take more
    let n := tail.foldl (fun n c => 64 * n + (c.toNat - 0x80)) first
    if tail.length = more ∧ (tail.all fun c => 0x80 ≤ c && c ≤ 0xBF) ∧ smallest more ≤ n ∧
        n.isValidChar then
      (Char.ofNat n, more)
    else (Char.ofNat 0xFFFD, 0)

/-- The characters of a text; `skip` octets belong to one already read. -/
def decodeFrom : Nat → Octets → List Char
  | _, [] => []
  | skip + 1, _ :: s => decodeFrom skip s
  | 0, b :: s => (decodeRune b s).1 :: decodeFrom (decodeRune b s).2 s

/-- The characters of a text. -/
def decode (s : Octets) : List Char := decodeFrom 0 s

theorem decode_nil : decode [] = [] := rfl

/-- An octet of ASCII is a character. -/
theorem decode_cons {b : UInt8} (h : b < 0x80) (s : Octets) :
    decode (b :: s) = Char.ofNat b.toNat :: decode s := by
  have hleading : leading b = some (b.toNat, 0) := by rw [leading, if_pos h]
  have hvalid : b.toNat.isValidChar := by
    have hlt : b.toNat < 0x80 := h
    exact .inl (by omega)
  have hrune : decodeRune b s = (Char.ofNat b.toNat, 0) := by
    rw [decodeRune, hleading]
    exact if_pos ⟨rfl, rfl, Nat.zero_le _, hvalid⟩
  rw [decode, decodeFrom, hrune]
  rfl

/-- A text in ASCII is its octets. -/
theorem decode_append {s : Octets} (h : ∀ b ∈ s, b < 0x80) (t : Octets) :
    decode (s ++ t) = s.map (fun b => Char.ofNat b.toNat) ++ decode t := by
  induction s with
  | nil => rfl
  | cons b s ih =>
    obtain ⟨hb, hs⟩ := List.forall_mem_cons.mp h
    rw [List.cons_append, decode_cons hb, ih hs]
    rfl

/-! ## Characters in UTF-8 -/

/-- A character is one octet, or has no octet below 128. -/
theorem mem_utf8EncodeChar {c : Char} {b : UInt8} (hb : b ∈ String.utf8EncodeChar c) :
    b.toNat = c.toNat ∨ 0x80 ≤ c.toNat ∧ 0x80 ≤ b.toNat := by
  have hval : c.val.toNat = c.toNat := rfl
  rw [String.utf8EncodeChar] at hb
  simp only [hval] at hb
  split at hb
  · obtain rfl := List.mem_singleton.1 hb
    left
    rw [UInt8.toNat_ofNat']
    omega
  · right
    refine ⟨by omega, ?_⟩
    split at hb
    · simp only [List.mem_cons, List.not_mem_nil, or_false] at hb
      rcases hb with rfl | rfl <;> rw [UInt8.toNat_ofNat'] <;> omega
    · split at hb
      · simp only [List.mem_cons, List.not_mem_nil, or_false] at hb
        rcases hb with rfl | rfl | rfl <;> rw [UInt8.toNat_ofNat'] <;> omega
      · simp only [List.mem_cons, List.not_mem_nil, or_false] at hb
        rcases hb with rfl | rfl | rfl | rfl <;> rw [UInt8.toNat_ofNat'] <;> omega

/-- The octets that belong to a character already read. -/
theorem decodeFrom_length (s t : Octets) : decodeFrom s.length (s ++ t) = decode t := by
  induction s with
  | nil => rfl
  | cons b s ih => exact ih

/-- A character in several octets is read. -/
theorem decode_octets {b : UInt8} {s : Octets} {first : Nat} {c : Char}
    (hb : leading b = some (first, s.length)) (hs : ∀ d ∈ s, 0x80 ≤ d ∧ d ≤ 0xBF)
    (hn : s.foldl (fun n d => 64 * n + (d.toNat - 0x80)) first = c.toNat)
    (hmin : smallest s.length ≤ c.toNat) (t : Octets) :
    decode (b :: s ++ t) = c :: decode t := by
  have hall : (s.all fun d => 0x80 ≤ d && d ≤ 0xBF) = true := by
    rw [List.all_eq_true]
    intro d hd
    simpa using hs d hd
  have hrune : decodeRune b (s ++ t) = (c, s.length) := by
    rw [decodeRune, hb]
    dsimp only
    rw [List.take_left, hn, if_pos ⟨rfl, hall, hmin, c.valid⟩, Char.ofNat_toNat]
  rw [List.cons_append, decode, decodeFrom, hrune, decodeFrom_length]

theorem further_octet {n : Nat} (hn : n < 64) :
    (0x80 ≤ UInt8.ofNat (n + 0x80) ∧ UInt8.ofNat (n + 0x80) ≤ 0xBF) ∧
      (UInt8.ofNat (n + 0x80)).toNat - 0x80 = n := by
  have hall : ∀ n < 64, (0x80 ≤ UInt8.ofNat (n + 0x80) ∧ UInt8.ofNat (n + 0x80) ≤ 0xBF) ∧
      (UInt8.ofNat (n + 0x80)).toNat - 0x80 = n := by decide
  exact hall n hn

theorem leading_two {n : Nat} (hn : n < 0x20) (hmin : 2 ≤ n) :
    leading (UInt8.ofNat (n + 0xC0)) = some (n, 1) := by
  have hall : ∀ n < 0x20, 2 ≤ n → leading (UInt8.ofNat (n + 0xC0)) = some (n, 1) := by decide
  exact hall n hn hmin

theorem leading_three {n : Nat} (hn : n < 0x10) :
    leading (UInt8.ofNat (n + 0xE0)) = some (n, 2) := by
  have hall : ∀ n < 0x10, leading (UInt8.ofNat (n + 0xE0)) = some (n, 2) := by decide
  exact hall n hn

theorem leading_four {n : Nat} (hn : n < 5) :
    leading (UInt8.ofNat (n + 0xF0)) = some (n, 3) := by
  have hall : ∀ n < 5, leading (UInt8.ofNat (n + 0xF0)) = some (n, 3) := by decide
  exact hall n hn

/-- A character is read from its octets. -/
theorem decode_utf8EncodeChar (c : Char) (t : Octets) :
    decode (String.utf8EncodeChar c ++ t) = c :: decode t := by
  have hvalid : c.toNat < 0x110000 := by
    have hv : c.toNat.isValidChar := c.valid
    rcases hv with hv | hv
    · omega
    · exact hv.2
  have hval : c.val.toNat = c.toNat := rfl
  rw [String.utf8EncodeChar]
  simp only [hval]
  split
  · rename_i hle
    have htoNat : (UInt8.ofNat c.toNat).toNat = c.toNat := by
      rw [UInt8.toNat_ofNat']
      omega
    have hb : UInt8.ofNat c.toNat < 0x80 := by
      rw [UInt8.lt_iff_toNat_lt, htoNat]
      exact Nat.lt_succ_of_le hle
    rw [List.singleton_append, decode_cons hb, htoNat, Char.ofNat_toNat]
  · split
    · have hlast := further_octet (n := c.toNat % 64) (by omega)
      refine decode_octets (leading_two (by omega) (by omega)) (List.forall_mem_singleton.2 hlast.1) ?_ ?_ t
      · rw [List.foldl_cons, hlast.2, List.foldl_nil]
        omega
      · change 0x80 ≤ c.toNat
        omega
    · split
      · have hmiddle := further_octet (n := c.toNat / 64 % 64) (by omega)
        have hlast := further_octet (n := c.toNat % 64) (by omega)
        refine decode_octets (leading_three (by omega))
          (List.forall_mem_cons.2 ⟨hmiddle.1, List.forall_mem_singleton.2 hlast.1⟩) ?_ ?_ t
        · rw [List.foldl_cons, hmiddle.2, List.foldl_cons, hlast.2, List.foldl_nil]
          omega
        · change 0x800 ≤ c.toNat
          omega
      · have hsecond := further_octet (n := c.toNat / 4096 % 64) (by omega)
        have hthird := further_octet (n := c.toNat / 64 % 64) (by omega)
        have hlast := further_octet (n := c.toNat % 64) (by omega)
        refine decode_octets (leading_four (by omega)) (List.forall_mem_cons.2 ⟨hsecond.1,
          List.forall_mem_cons.2 ⟨hthird.1, List.forall_mem_singleton.2 hlast.1⟩⟩) ?_ ?_ t
        · rw [List.foldl_cons, hsecond.2, List.foldl_cons, hthird.2, List.foldl_cons, hlast.2,
            List.foldl_nil]
          omega
        · change 0x10000 ≤ c.toNat
          omega

/-- **A text is read** from its octets in UTF-8. -/
theorem decode_utf8 (s : List Char) (t : Octets) :
    decode (s.flatMap String.utf8EncodeChar ++ t) = s ++ decode t := by
  induction s with
  | nil => rfl
  | cons c s ih => rw [List.flatMap_cons, List.append_assoc, decode_utf8EncodeChar, ih, List.cons_append]

end E2Mail.Lib
