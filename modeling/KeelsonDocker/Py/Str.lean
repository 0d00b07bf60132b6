import Mathlib.Data.List.Basic

/-!
# Strings, bytes and globs as Python has them

A `str` is a `String`, a `bytes` is a `List UInt8`. The operations are those of the standard library
that the source calls: `str.strip` and `rstrip`, `split` and `splitlines`, `lower`, `bytes.decode("utf-8", errors="replace")`,
`bytes.split` and `fnmatch.fnmatchcase`.
-/

namespace KeelsonDocker

abbrev Bytes := List UInt8

/-! ### Blanks -/

/-- `str.isspace` for one character. -/
def isSpace (c : Char) : Bool :=
  let n := c.toNat
  (9 ≤ n && n ≤ 13) || (28 ≤ n && n ≤ 32) || n == 0x85 || n == 0xa0 || n == 0x1680 ||
    (0x2000 ≤ n && n ≤ 0x200a) || n == 0x2028 || n == 0x2029 || n == 0x202f || n == 0x205f ||
    n == 0x3000

/-- `not s.strip()`. -/
def isBlank (s : String) : Bool := s.toList.all isSpace

/-- The whitespace of `bytes.strip` and of `\s` in a bytes pattern. -/
def isSpaceByte (b : UInt8) : Bool := b == 32 || (9 ≤ b && b ≤ 13)

/-- `s.rstrip(c)` for a single character. -/
def rstrip (c : Char) (s : String) : String :=
  String.ofList (s.toList.reverse.dropWhile (· == c)).reverse

/-- `s.strip(chars)`, the characters given by a predicate. -/
def stripBy (blank : Char → Bool) (s : String) : String :=
  String.ofList (((s.toList.dropWhile blank).reverse.dropWhile blank).reverse)

def strip : String → String := stripBy isSpace

/-- `s.split()`. -/
def splitWords (s : String) : List String :=
  ((s.toList.splitOnP isSpace).filter (· ≠ [])).map String.ofList

def isLineBreak (c : Char) : Bool :=
  let n := c.toNat
  (10 ≤ n && n ≤ 13) || (28 ≤ n && n ≤ 30) || n == 0x85 || n == 0x2028 || n == 0x2029

/-- `s.splitlines()`, with the line read so far reversed. -/
def splitLinesFrom (line : List Char) : List Char → List (List Char)
  | [] => if line = [] then [] else [line.reverse]
  | '\r' :: '\n' :: cs => line.reverse :: splitLinesFrom [] cs
  | c :: cs =>
    if isLineBreak c then line.reverse :: splitLinesFrom [] cs else splitLinesFrom (c :: line) cs

def splitLines (s : String) : List String := (splitLinesFrom [] s.toList).map String.ofList

/-- `s.lower()`. Outside ASCII only the letters are changed whose lower case has an ASCII one. -/
def lower (s : String) : String :=
  String.ofList (s.toList.flatMap fun c =>
    if c.toNat = 0x212a then ['k']
    else if c.toNat = 0x130 then ['i', Char.ofNat 0x307]
    else [c.toLower])

/-- Where the decimal digits of each script begin. -/
def digitZeros : List Nat :=
  [0x30, 0x660, 0x6f0, 0x7c0, 0x966, 0x9e6, 0xa66, 0xae6, 0xb66, 0xbe6, 0xc66, 0xce6, 0xd66,
   0xde6, 0xe50, 0xed0, 0xf20, 0x1040, 0x1090, 0x17e0, 0x1810, 0x1946, 0x19d0, 0x1a80, 0x1a90,
   0x1b50, 0x1bb0, 0x1c40, 0x1c50, 0xa620, 0xa8d0, 0xa900, 0xa9d0, 0xa9f0, 0xaa50, 0xabf0,
   0xff10, 0x104a0, 0x10d30, 0x11066, 0x110f0, 0x11136, 0x111d0, 0x112f0, 0x11450, 0x114d0,
   0x11650, 0x116c0, 0x11730, 0x118e0, 0x11950, 0x11c50, 0x11d50, 0x11da0, 0x11f50, 0x16a60,
   0x16ac0, 0x16b50, 0x1d7ce, 0x1d7d8, 0x1d7e2, 0x1d7ec, 0x1d7f6, 0x1e140, 0x1e2f0, 0x1e4f0,
   0x1e950, 0x1fbf0]

def digitValue (c : Char) : Option Nat :=
  (digitZeros.find? fun first => first ≤ c.toNat ∧ c.toNat < first + 10).map (c.toNat - ·)

/-- `int(s)` of a string without blanks; `none` for its `ValueError`. -/
def pyInt (s : String) : Option Int :=
  let (negative, digits) :=
    match s.toList with
    | '-' :: cs => (true, cs)
    | '+' :: cs => (false, cs)
    | cs => (false, cs)
  let groups := digits.splitOn '_'
  if (groups.all fun g => g ≠ [] ∧ g.all fun c => (digitValue c).isSome) ∧
      groups.flatten.length ≤ 4300 then
    let n : Int := (groups.flatten.filterMap digitValue).foldl (fun n d => n * 10 + d) 0
    some (if negative then -n else n)
  else none

/-! ### UTF-8 -/

/-- A character begun: the continuation bytes still owed, the least and the greatest value the next
one may have, and the bits read so far. -/
structure Pending where
  owed : Nat
  low : Nat
  high : Nat
  bits : Nat

def replacement : Char := Char.ofNat 0xfffd

/-- The first byte of a character: the character itself, one begun, or a refusal. -/
def utf8Lead (b : Nat) : Option (Char ⊕ Pending) :=
  if b < 0x80 then some (.inl (Char.ofNat b))
  else if 0xc2 ≤ b ∧ b ≤ 0xdf then some (.inr ⟨1, 0x80, 0xbf, b - 0xc0⟩)
  else if b = 0xe0 then some (.inr ⟨2, 0xa0, 0xbf, 0⟩)
  else if b = 0xed then some (.inr ⟨2, 0x80, 0x9f, 0xd⟩)
  else if 0xe1 ≤ b ∧ b ≤ 0xef then some (.inr ⟨2, 0x80, 0xbf, b - 0xe0⟩)
  else if b = 0xf0 then some (.inr ⟨3, 0x90, 0xbf, 0⟩)
  else if 0xf1 ≤ b ∧ b ≤ 0xf3 then some (.inr ⟨3, 0x80, 0xbf, b - 0xf0⟩)
  else if b = 0xf4 then some (.inr ⟨3, 0x80, 0x8f, 4⟩)
  else none

/-- `bytes.decode("utf-8", errors="replace")` from the middle of a character: an ill-formed sequence
becomes one replacement character for each maximal well-formed beginning. -/
def utf8Replace : Option Pending → Bytes → List Char
  | none, [] => []
  | some _, [] => [replacement]
  | none, b :: bs =>
    match utf8Lead b.toNat with
    | some (.inl c) => c :: utf8Replace none bs
    | some (.inr p) => utf8Replace (some p) bs
    | none => replacement :: utf8Replace none bs
  | some p, b :: bs =>
    if p.low ≤ b.toNat ∧ b.toNat ≤ p.high then
      let bits := p.bits * 64 + (b.toNat - 0x80)
      if p.owed = 1 then Char.ofNat bits :: utf8Replace none bs
      else utf8Replace (some ⟨p.owed - 1, 0x80, 0xbf, bits⟩) bs
    else
      replacement ::
        match utf8Lead b.toNat with
        | some (.inl c) => c :: utf8Replace none bs
        | some (.inr p) => utf8Replace (some p) bs
        | none => replacement :: utf8Replace none bs

/-- `bytes.decode("utf-8")` from the middle of a character. -/
def utf8Strict : Option Pending → Bytes → Option (List Char)
  | none, [] => some []
  | some _, [] => none
  | none, b :: bs =>
    match utf8Lead b.toNat with
    | some (.inl c) => (utf8Strict none bs).map (c :: ·)
    | some (.inr p) => utf8Strict (some p) bs
    | none => none
  | some p, b :: bs =>
    if p.low ≤ b.toNat ∧ b.toNat ≤ p.high then
      let bits := p.bits * 64 + (b.toNat - 0x80)
      if p.owed = 1 then (utf8Strict none bs).map (Char.ofNat bits :: ·)
      else utf8Strict (some ⟨p.owed - 1, 0x80, 0xbf, bits⟩) bs
    else none

/-- Every line end a newline. -/
def newlines : List Char → List Char
  | '\r' :: '\n' :: cs => '\n' :: newlines cs
  | '\r' :: cs => '\n' :: newlines cs
  | c :: cs => c :: newlines cs
  | [] => []

/-- The output of a subprocess with `text=True`; `none` for its `UnicodeDecodeError`. -/
def decodeText (bs : Bytes) : Option String :=
  (utf8Strict none bs).map fun cs => String.ofList (newlines cs)

def decodeReplace (bs : Bytes) : String := String.ofList (utf8Replace none bs)

/-- `str.encode("ascii")`, of a text that is ASCII. -/
def ascii (s : String) : Bytes := s.toList.map fun c => UInt8.ofNat c.toNat

/-- `bytes.decode("ascii", "replace")`. -/
def asciiReplace (bs : Bytes) : String :=
  String.ofList (bs.map fun b => if b < 0x80 then Char.ofNat b.toNat else replacement)

/-! ### `fnmatch` -/

/-- One token of a glob. A bracket set is a list of inclusive ranges. -/
inductive GlobTok
  | star
  | any
  | lit (c : Char)
  | set (negated : Bool) (ranges : List (Char × Char))

/-- The ranges between the brackets; a hyphen stands for itself at either end. -/
def globRanges : List Char → List (Char × Char)
  | a :: '-' :: b :: cs => (a, b) :: globRanges cs
  | a :: cs => (a, a) :: globRanges cs
  | [] => []

/-- What follows a `[`: the set and how many characters it takes, or nothing when no bracket closes
it. A `]` right after the opening (or after its `!`) stands for itself. -/
def globSet (cs : List Char) : Option (GlobTok × Nat) :=
  let negated := cs.head? == some '!'
  let inner := if negated then cs.tail else cs
  let first := if inner.head? == some ']' then [']'] else []
  let rest := inner.drop first.length
  if rest.contains ']' then
    let body := first ++ rest.takeWhile (· != ']')
    some (.set negated (globRanges body), (if negated then 1 else 0) + body.length + 1)
  else none

/-- The tokens of a glob, after dropping `skip` characters that a set has taken. -/
def globToks : (skip : Nat) → List Char → List GlobTok
  | _, [] => []
  | skip + 1, _ :: cs => globToks skip cs
  | 0, '*' :: cs => .star :: globToks 0 cs
  | 0, '?' :: cs => .any :: globToks 0 cs
  | 0, '[' :: cs =>
    match globSet cs with
    | some (tok, len) => tok :: globToks len cs
    | none => .lit '[' :: globToks 0 cs
  | 0, c :: cs => .lit c :: globToks 0 cs

def globMatch : List GlobTok → List Char → Bool
  | [], s => s.isEmpty
  | .star :: toks, s => s.tails.any (globMatch toks)
  | .any :: toks, _ :: s => globMatch toks s
  | .lit c :: toks, d :: s => c == d && globMatch toks s
  | .set negated ranges :: toks, d :: s =>
    (ranges.any (fun r => r.1 ≤ d && d ≤ r.2) != negated) && globMatch toks s
  | _ :: _, [] => false

/-- `fnmatch.fnmatchcase(name, pattern)`. -/
def fnmatchcase (name pattern : String) : Bool :=
  globMatch (globToks 0 pattern.toList) name.toList

example : fnmatchcase "keelson-router" "keelson-*" = true := by decide
example : fnmatchcase "a-b" "[!x-z]?[a-c]" = true := by decide

end KeelsonDocker
