import E2Mail.Lib.Text

/-!
# Network addresses

What Go's `net` package makes of the text of an address:

* `splitHostPort` — the host and the port of `host:port` or `[host]:port`.
* `parseIP` — an IPv4 or IPv6 address without a zone, as `IP`: sixteen bytes, in
  eight groups, where an IPv4 address is `::ffff:a.b.c.d`.
* `IP.text` — the address written back, and `IP.isLoopback`.
-/

namespace E2Mail.Lib.NetAddr

open Lib.Text (splitBy)

/-! ## Hosts and ports -/

/-- What stands before the last `c` of a text, and what after it. -/
def cutLast (c : Char) (s : List Char) : Option (List Char × List Char) :=
  match s.reverse.dropWhile (· != c) with
  | [] => none
  | _ :: before => some (before.reverse, (s.reverse.takeWhile (· != c)).reverse)

/-- `net.SplitHostPort`, where `none` is any of its errors. -/
def splitHostPort (hostport : List Char) : Option (List Char × List Char) :=
  match cutLast ':' hostport with
  | none => none
  | some (before, port) =>
    let host? :=
      match before with
      | '[' :: inner =>
        -- the first `]` has to stand just before the last colon
        if inner.getLast? = some ']' ∧ ']' ∉ inner.dropLast then some inner.dropLast else none
      | _ => if ':' ∈ before then none else some before
    match host? with
    | none => none
    | some host =>
      if '[' ∈ host ++ port ∨ ']' ∈ host ++ port then none else some (host, port)

/-! ## Addresses -/

/-- `net.IP`, in eight groups of sixteen bits. -/
structure IP where
  groups : List UInt16
  length_eq : groups.length = 8
  deriving DecidableEq

def isDigit (c : Char) : Bool := '0' ≤ c && c ≤ '9'

def isHexDigit (c : Char) : Bool := isDigit c || ('a' ≤ c && c ≤ 'f') || ('A' ≤ c && c ≤ 'F')

def hexValue (c : Char) : Nat :=
  if isDigit c then c.toNat - '0'.toNat
  else if 'a' ≤ c then c.toNat - 'a'.toNat + 10 else c.toNat - 'A'.toNat + 10

/-- The number a text of digits writes in a base. -/
def number (base : Nat) (s : List Char) : Nat := s.foldl (fun n c => n * base + hexValue c) 0

/-- A decimal number up to 255, without leading zeros. -/
def octet (s : List Char) : Option Nat :=
  if s ≠ [] ∧ s.all isDigit ∧ (s.head? = some '0' → s.length = 1) ∧ number 10 s ≤ 255 then
    some (number 10 s)
  else none

/-- `parseIPv4Fields`: four octets, as two groups. -/
def parseIPv4Fields (s : List Char) : Option (List UInt16) :=
  match (splitBy (· == '.') s).map octet with
  | [some a, some b, some c, some d] =>
    some [UInt16.ofNat (a * 256 + b), UInt16.ofNat (c * 256 + d)]
  | _ => none

/-- The loop of `parseIPv6`: with room for some groups, those read so far, and where
the `::` stood among them; it leaves what it has not read. -/
def readGroups : Nat → List Char → List UInt16 → Option Nat →
    Option (List UInt16 × Option Nat × List Char)
  | 0, s, groups, ellipsis => some (groups, ellipsis, s)
  | room + 1, s, groups, ellipsis =>
    let digits := s.takeWhile isHexDigit
    let groups' := groups ++ [UInt16.ofNat (number 16 digits)]
    if digits = [] ∨ 4 < digits.length then none
    else
      match s.dropWhile isHexDigit with
      | [] => some (groups', ellipsis, [])
      | '.' :: _ =>
        -- an IPv4 address at the end takes the place of the last two groups
        if (ellipsis = none ∧ room ≠ 1) ∨ room = 0 then none
        else (parseIPv4Fields s).map fun fields => (groups ++ fields, ellipsis, [])
      | [':'] => none
      | ':' :: ':' :: rest =>
        if ellipsis.isSome then none
        else if rest = [] then some (groups', some groups'.length, [])
        else readGroups room rest groups' (some groups'.length)
      | ':' :: rest => readGroups room rest groups' ellipsis
      | _ => none

/-- The end of `parseIPv6`: the whole text is read, and `::` stands for the groups
that are missing, one at least. -/
def expand : Option (List UInt16 × Option Nat × List Char) → Option IP
  | some (groups, none, []) => if h : groups.length = 8 then some ⟨groups, h⟩ else none
  | some (groups, some i, []) =>
    if h : groups.length < 8 then
      some ⟨groups.take i ++ List.replicate (8 - groups.length) 0 ++ groups.drop i, by
        simp only [List.length_append, List.length_take, List.length_replicate,
          List.length_drop]
        omega⟩
    else none
  | _ => none

/-- `parseIPv6`. -/
def parseIPv6 (s : List Char) : Option IP :=
  match s with
  | [':', ':'] => some ⟨List.replicate 8 0, rfl⟩
  | ':' :: ':' :: rest => expand (readGroups 8 rest [] (some 0))
  | s => expand (readGroups 8 s [] none)

/-- `parseIPv4`. -/
def parseIPv4 (s : List Char) : Option IP :=
  match parseIPv4Fields s with
  | some [hi, lo] => some ⟨[0, 0, 0, 0, 0, 0xffff, hi, lo], rfl⟩
  | _ => none

/-- `net.ParseIP`: the first dot, colon or `%` tells which kind of address it is. -/
def parseIP (s : List Char) : Option IP :=
  match s.find? fun c => c == '.' || c == ':' || c == '%' with
  | some '.' => parseIPv4 s
  | some ':' => parseIPv6 s
  | _ => none

/-- `IP.To4`: the two groups of an IPv4 address. -/
def IP.to4 (ip : IP) : Option (UInt16 × UInt16) :=
  match ip.groups with
  | [0, 0, 0, 0, 0, 0xffff, hi, lo] => some (hi, lo)
  | _ => none

/-- `IP.IsLoopback`: `127.0.0.0/8` or `::1`. -/
def IP.isLoopback (ip : IP) : Bool :=
  match ip.to4 with
  | some (hi, _) => hi.toNat / 256 == 127
  | none => ip.groups == [0, 0, 0, 0, 0, 0, 0, 1]

/-- How many groups from the `i`-th on are zero, up to the first that is not. -/
def zeroRun (groups : List UInt16) (i : Nat) : Nat := ((groups.drop i).takeWhile (· == 0)).length

/-- The first of the longest runs of at least two zero groups: where it starts, and its length. -/
def longestZeroRun (groups : List UInt16) : Option (Nat × Nat) :=
  (List.range groups.length).foldl (fun best i =>
    if 2 ≤ zeroRun groups i ∧ (best.map Prod.snd).getD 0 < zeroRun groups i then
      some (i, zeroRun groups i)
    else best) none

/-- Groups in lower-case hexadecimal, with colons between them. -/
def groupsText (groups : List UInt16) : List Char :=
  [':'].intercalate (groups.map fun g => Nat.toDigits 16 g.toNat)

/-- `IP.String`. -/
def IP.text (ip : IP) : List Char :=
  match ip.to4 with
  | some (hi, lo) =>
    ['.'].intercalate ([hi.toNat / 256, hi.toNat % 256, lo.toNat / 256, lo.toNat % 256].map
      (Nat.toDigits 10))
  | none =>
    match longestZeroRun ip.groups with
    | some (i, n) => groupsText (ip.groups.take i) ++ "::".toList ++ groupsText (ip.groups.drop (i + n))
    | none => groupsText ip.groups

end E2Mail.Lib.NetAddr
