import KeelsonDocker.PlatformRepo

/-!
# What `git status --porcelain` prints

`git` is outside the package. This is its documented output for a set of uncommitted changes, with
`core.quotePath` at its default: a path with a space, or with anything that must be escaped, is put in
double quotes.
-/

namespace KeelsonDocker.GitStatus

inductive Column
  | unmodified | modified | typeChanged | added | deleted | renamed | copied | unmerged | untracked
  deriving DecidableEq, Repr

def Column.letter : Column → Char
  | unmodified => ' '
  | modified => 'M'
  | typeChanged => 'T'
  | added => 'A'
  | deleted => 'D'
  | renamed => 'R'
  | copied => 'C'
  | unmerged => 'U'
  | untracked => '?'

/-- A path with an uncommitted change; one that was renamed or copied also has the name it came from. -/
structure Change where
  index : Column
  worktree : Column
  source : Option String := none
  path : String
  deriving DecidableEq, Repr

/-- Nothing has the empty name, and what was renamed is listed as that alone. -/
structure Uncommitted where
  changes : List Change
  named : ∀ c ∈ changes, c.path ≠ "" ∧ c.source ≠ some ""
  once : ∀ c ∈ changes, ∀ c' ∈ changes, c.path = c'.path → c.source = c'.source

/-- Three octal digits. -/
def octal (n : Nat) : List Char := [n / 64 % 8, n / 8 % 8, n % 8].map fun d => Char.ofNat (48 + d)

/-- What is escaped by a letter, by code point. -/
def letters : List (Nat × Char) :=
  [(7, 'a'), (8, 'b'), (9, 't'), (10, 'n'), (11, 'v'), (12, 'f'), (13, 'r'), (34, '"'), (92, '\\')]

def escape (c : Char) : List Char :=
  match letters.lookup c.toNat with
  | some letter => ['\\', letter]
  | none =>
    if 32 ≤ c.toNat ∧ c.toNat < 127 then [c]
    else (String.utf8EncodeChar c).flatMap fun b => '\\' :: octal b.toNat

def quote (name : String) : List Char :=
  let body := name.toList.flatMap escape
  if body ≠ name.toList ∨ ' ' ∈ name.toList then '"' :: body ++ ['"'] else body

def line (c : Change) : List Char :=
  let source := (c.source.map fun s => quote s ++ " -> ".toList).getD []
  [c.index.letter, c.worktree.letter, ' '] ++ source ++ quote c.path

def porcelain (u : Uncommitted) : String := String.ofList (u.changes.flatMap fun c => line c ++ ['\n'])

example : quote "a b.yml" = "\"a b.yml\"".toList := by decide
example : quote "å.yml" = "\"\\303\\245.yml\"".toList := by decide

end KeelsonDocker.GitStatus
