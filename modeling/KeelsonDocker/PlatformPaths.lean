import KeelsonDocker.Errors
import KeelsonDocker.Py.Str
import KeelsonDocker.Theory.RealPath
import Mathlib.Data.List.TakeWhile

/-!
# `platform_paths.py`: resolving a caller's path inside the repository

A `pathlib.Path` is the list of its parts below the root of the file system.
-/

namespace KeelsonDocker

open Effect FileSystem

/-! ### `OSError` -/

/-- `errno` and `os.strerror(errno)`. -/
def strerror : Errno → Nat × String
  | .noent => (2, "No such file or directory")
  | .io => (5, "Input/output error")
  | .badf => (9, "Bad file descriptor")
  | .acces => (13, "Permission denied")
  | .exist => (17, "File exists")
  | .notdir => (20, "Not a directory")
  | .isdir => (21, "Is a directory")
  | .inval => (22, "Invalid argument")
  | .noSpace => (28, "No space left on device")
  | .nameTooLong => (36, "File name too long")
  | .loop => (40, "Too many levels of symbolic links")

/-- `str(path)` of an absolute path. -/
def pathStr (p : Path) : String := "/" ++ "/".intercalate p

/-- `str(exc)` of an `OSError` that names no file. -/
def errnoText (e : Errno) : String :=
  "[Errno " ++ toString (strerror e).1 ++ "] " ++ (strerror e).2

/-- `str(exc)` of an `OSError`. -/
def osErrorText (e : Errno) (p : Path) : String := errnoText e ++ ": " ++ pyRepr (pathStr p)

def osError (e : Errno) (p : Path) : Exn := .os (osErrorText e p)

/-- A call of the operating system on the path `p`. -/
def sys (p : Path) : Except Errno α → Except Exn α
  | .ok a => .ok a
  | .error e => .error (osError e p)

/-! ### `pathlib` -/

/-- `PurePosixPath(s).parts` without the root. -/
def pureParts (s : String) : List String :=
  ((s.toList.splitOn '/').map String.ofList).filter fun part => part ≠ "" ∧ part ≠ "."

/-- `PurePosixPath(s).root`. -/
def pureRoot (s : String) : String :=
  match s.toList with
  | '/' :: '/' :: '/' :: _ => "/"
  | '/' :: '/' :: _ => "//"
  | '/' :: _ => "/"
  | _ => ""

def isAbsolute (s : String) : Bool := pureRoot s ≠ ""

/-- `as_posix()` of a relative path. -/
def asPosix (parts : List String) : String :=
  if parts = [] then "." else String.ofList (['/'].intercalate (parts.map String.toList))

def pathName (p : Path) : String := p.getLast?.getD ""

theorem dropLast_pathName {p : Path} (h : p ≠ []) : p.dropLast ++ [pathName p] = p := by
  rcases List.eq_nil_or_concat' p with rfl | ⟨q, name, rfl⟩
  · exact absurd rfl h
  · simp [pathName]

/-- `PurePosixPath.suffix`, of a name. -/
def suffix (name : String) : String :=
  let cs := name.toList
  let last := cs.reverse.takeWhile (· ≠ '.')
  if last ≠ [] ∧ last.length + 1 < cs.length then String.ofList ('.' :: last.reverse) else ""

/-- `PurePath.parents`, innermost first. -/
def parents (p : Path) : List Path := p.inits.dropLast.reverse

/-- What `is_file` and `is_dir` take for an absence. -/
def ignoredErrno (e : Errno) : Bool := e ∈ [.noent, .notdir, .badf, .loop]

/-- `Path.is_file` and `Path.is_dir`, by the kind asked for. -/
def isKind (kind : Node Bytes → Bool) (t : FileTree Bytes) (p : Path) : Except Exn Bool :=
  match t.stat p with
  | .ok nd => .ok (kind nd)
  | .error e => if ignoredErrno e then .ok false else .error (osError e p)

def isFile : FileTree Bytes → Path → Except Exn Bool := isKind Node.isFile
def isDir : FileTree Bytes → Path → Except Exn Bool := isKind Node.isDir

namespace PlatformPaths

/-! ### The rules -/

def ALLOWED_SUFFIXES : List String := [".conf", ".json", ".json5", ".md", ".yaml", ".yml"]

/-- A name, not a suffix. -/
def ALLOWED_NAMES : List String := [".env"]

def FORBIDDEN_COMPONENTS : List String := [".git"]

def isAllowedName (name : String) : Bool :=
  name ∈ ALLOWED_NAMES || lower (suffix name) ∈ ALLOWED_SUFFIXES

example : isAllowedName "Compose.YML" = true := by decide
example : isAllowedName ".yml" = false := by decide

/-- The loop over the parts in `_check_shape`. -/
def checkParts : List String → Except Exn Unit
  | [] => .ok ()
  | part :: parts =>
    if part = ".." then .error (.path "path must not contain '..'")
    else if part ∈ FORBIDDEN_COMPONENTS then
      .error (.path ("path must not traverse '" ++ part ++ "'"))
    else checkParts parts

/-- `_check_shape`: the parts of the path, on the string alone. -/
def checkShape (relative : String) : Except Exn (List String) :=
  if relative = "" ∨ isBlank relative then .error (.path "path is empty")
  else if relative.toList.contains '\\' then .error (.path "path contains a backslash")
  else if relative.toList.contains (Char.ofNat 0) then .error (.path "path contains a null byte")
  else if isAbsolute relative then
    .error (.path "path must be relative to the repository root")
  else do
    checkParts (pureParts relative)
    return pureParts relative

/-- The two rules of `resolve` on the place a path leads to. -/
def checkPlace (rootReal candidate : Path) : Except Exn Unit :=
  if candidate ≠ rootReal ∧ rootReal ∉ parents candidate then
    .error (.path "path escapes the repository root")
  else if !isAllowedName (pathName candidate) then
    .error (.path ("'" ++ pathName candidate ++ "' is not an editable configuration file " ++
      "(allowed: " ++ ", ".intercalate ALLOWED_SUFFIXES ++ ", or .env)"))
  else .ok ()

/-- `if must_be_file and not candidate.is_file()`. -/
def checkFile (t : FileTree Bytes) (candidate : Path) (mustBeFile : Bool) : Except Exn Unit :=
  if mustBeFile then
    match isFile t candidate with
    | .ok true => .ok ()
    | .ok false => .error (.path "no such file")
    | .error e => .error e
  else .ok ()

/-- `resolve`. -/
def resolve (t : FileTree Bytes) (root : List String) (relative : String) (mustBeFile : Bool := false) :
    Except Exn Path := do
  let parts ← checkShape relative
  let rootReal := t.realpath root
  let candidate := t.realpath (rootReal ++ parts)
  checkPlace rootReal candidate
  checkFile t candidate mustBeFile
  return candidate

/-- `path.relative_to(root)`, of two real paths. -/
def relativeTo (rootReal path : Path) : Except Exn String :=
  if rootReal <+: path then .ok (asPosix (path.drop rootReal.length))
  else .error (.py .valueError)

/-- `relative_to_root`. -/
def relativeToRoot (t : FileTree Bytes) (root path : List String) : Except Exn String :=
  relativeTo (t.realpath root) (t.realpath path)

/-! ### Segment globs -/

/-- `"**"`: every split point, the first one first. -/
def spans (matchRest : List String → Bool) : List String → Bool
  | [] => matchRest []
  | part :: path => matchRest (part :: path) || spans matchRest path

/-- `_match_segments`. -/
def matchSegments : (path pat : List String) → Bool
  | path, [] => path.isEmpty
  | path, head :: rest =>
    if head = "**" then spans (fun path => matchSegments path rest) path
    else
      match path with
      | [] => false
      | part :: path => fnmatchcase part head && matchSegments path rest

/-- `PurePosixPath(s).parts`. -/
def allParts (s : String) : List String := [pureRoot s].filter (· ≠ "") ++ pureParts s

/-- `path_matches`. -/
def pathMatches (relative pattern : String) : Bool :=
  matchSegments (allParts relative) (allParts pattern)

example : pathMatches "platforms/sealog-9/nested/a.yml" "platforms/sealog-9/*" = false := by decide
example : pathMatches "platforms/sealog-9" "platforms/sealog-9/**" = true := by decide

/-! ### What the shape tells -/

/-- The strings that `_check_shape` lets through. -/
structure Shaped (relative : String) : Prop where
  notBlank : isBlank relative = false
  noBackslash : '\\' ∉ relative.toList
  noNull : Char.ofNat 0 ∉ relative.toList
  notAbsolute : isAbsolute relative = false
  parts : ∀ part ∈ pureParts relative, part ≠ ".." ∧ part ∉ FORBIDDEN_COMPONENTS

theorem checkParts_eq_ok {parts : List String} :
    checkParts parts = .ok () ↔ ∀ part ∈ parts, part ≠ ".." ∧ part ∉ FORBIDDEN_COMPONENTS := by
  induction parts with
  | nil => simp [checkParts]
  | cons part parts ih =>
    rw [checkParts]
    by_cases hdots : part = ".."
    · simp [hdots]
    · by_cases hforbidden : part ∈ FORBIDDEN_COMPONENTS
      · simp [hdots, hforbidden]
      · simp [hdots, hforbidden, ih]

theorem checkParts_error {parts : List String} {e : Exn} (h : checkParts parts = .error e) :
    ∃ m, e = .path m := by
  induction parts with
  | nil => cases h
  | cons part parts ih =>
    rw [checkParts] at h
    split at h
    · cases h
      exact ⟨_, rfl⟩
    · split at h
      · cases h
        exact ⟨_, rfl⟩
      · exact ih h

theorem checkShape_eq_ok {relative : String} {parts : List String} :
    checkShape relative = .ok parts ↔ Shaped relative ∧ parts = pureParts relative := by
  constructor
  · intro h
    unfold checkShape at h
    split at h
    · cases h
    · rename_i hblank
      split at h
      · cases h
      · rename_i hbackslash
        split at h
        · cases h
        · rename_i hnull
          split at h
          · cases h
          · rename_i habsolute
            obtain ⟨_, hparts, h⟩ := bind_eq_ok.mp h
            cases h
            simp only [not_or, Bool.not_eq_true] at hblank hbackslash hnull habsolute
            exact ⟨⟨hblank.2, by simpa using hbackslash, by simpa using hnull, habsolute,
              checkParts_eq_ok.mp hparts⟩, rfl⟩
  · rintro ⟨h, rfl⟩
    have hempty : relative ≠ "" := by
      rintro rfl
      exact absurd h.notBlank (by decide)
    have hparts := checkParts_eq_ok.mpr h.parts
    simp [checkShape, hempty, h.notBlank, h.noBackslash, h.noNull, h.notAbsolute, hparts]

theorem checkShape_error {relative : String} {e : Exn} (h : checkShape relative = .error e) :
    ∃ m, e = .path m := by
  unfold checkShape at h
  repeat' split at h
  iterate 4
    · cases h
      exact ⟨_, rfl⟩
  cases hparts : checkParts (pureParts relative) with
  | ok _ => simp [hparts] at h
  | error e' =>
    rw [hparts] at h
    cases h
    exact checkParts_error hparts

theorem mem_parents {p q : Path} : q ∈ parents p ↔ q <+: p ∧ q ≠ p := by
  rcases List.eq_nil_or_concat' p with rfl | ⟨p, name, rfl⟩
  · simp [parents]
  · have hinits : q ∈ parents (p ++ [name]) ↔ q <+: p := by simp [parents, List.inits_append]
    rw [hinits, List.prefix_concat_iff]
    constructor
    · intro h
      refine ⟨.inr h, ?_⟩
      rintro rfl
      simpa using h.length_le
    · rintro ⟨h | h, hne⟩
      · exact absurd h hne
      · exact h

/-- What the two rules on a place demand. -/
theorem checkPlace_eq_ok {rootReal candidate : Path} :
    checkPlace rootReal candidate = .ok () ↔
      rootReal <+: candidate ∧ isAllowedName (pathName candidate) = true := by
  unfold checkPlace
  split
  · rename_i h
    simp only [reduceCtorEq, false_iff, not_and]
    intro hpre
    exact absurd (mem_parents.mpr ⟨hpre, Ne.symm h.1⟩) h.2
  · rename_i h
    have hpre : rootReal <+: candidate := by
      by_cases heq : candidate = rootReal
      · rw [heq]
      · by_contra hnot
        exact h ⟨heq, fun hp => hnot (mem_parents.mp hp).1⟩
    cases isAllowedName (pathName candidate) <;> simp [hpre]

theorem checkPlace_error {rootReal candidate : Path} {e : Exn}
    (h : checkPlace rootReal candidate = .error e) : ∃ m, e = .path m := by
  unfold checkPlace at h
  split at h
  · cases h
    exact ⟨_, rfl⟩
  · split at h
    · cases h
      exact ⟨_, rfl⟩
    · cases h

theorem checkFile_eq_ok {t : FileTree Bytes} {candidate : Path} {mustBeFile : Bool} :
    checkFile t candidate mustBeFile = .ok () ↔
      (mustBeFile = true → isFile t candidate = .ok true) := by
  unfold checkFile
  cases mustBeFile with
  | false => simp
  | true =>
    cases isFile t candidate with
    | error e => simp
    | ok b => cases b <;> simp

/-- What `resolve` returns. -/
theorem resolve_eq_ok {t : FileTree Bytes} {root : List String} {relative : String} {mustBeFile : Bool}
    {p : Path} :
    resolve t root relative mustBeFile = .ok p ↔
      Shaped relative ∧ p = t.realpath (t.realpath root ++ pureParts relative) ∧
        t.realpath root <+: p ∧ isAllowedName (pathName p) = true ∧
        (mustBeFile = true → isFile t p = .ok true) := by
  unfold resolve
  constructor
  · intro h
    obtain ⟨parts, hshape, h⟩ := bind_eq_ok.mp h
    obtain ⟨hshaped, rfl⟩ := checkShape_eq_ok.mp hshape
    obtain ⟨_, hplace, h⟩ := bind_eq_ok.mp h
    obtain ⟨_, hfile, h⟩ := bind_eq_ok.mp h
    cases h
    obtain ⟨hinside, hname⟩ := checkPlace_eq_ok.mp hplace
    exact ⟨hshaped, rfl, hinside, hname, checkFile_eq_ok.mp hfile⟩
  · rintro ⟨hshaped, rfl, hinside, hname, hfile⟩
    refine bind_eq_ok.mpr ⟨_, checkShape_eq_ok.mpr ⟨hshaped, rfl⟩, ?_⟩
    refine bind_eq_ok.mpr ⟨_, checkPlace_eq_ok.mpr ⟨hinside, hname⟩, ?_⟩
    exact bind_eq_ok.mpr ⟨_, checkFile_eq_ok.mpr hfile, rfl⟩

/-! ### Names as text and back -/

private theorem mem_intercalate {c sep : Char} {ls : List (List Char)}
    (h : c ∈ [sep].intercalate ls) : c = sep ∨ ∃ l ∈ ls, c ∈ l := by
  induction ls with
  | nil => cases h
  | cons l ls ih =>
    cases ls with
    | nil => exact .inr ⟨l, by simp, by simpa using h⟩
    | cons l' ls =>
      rw [List.intercalate_cons_cons] at h
      rcases List.mem_append.mp h with h | h
      · rcases List.mem_append.mp h with h | h
        · exact .inr ⟨l, by simp, h⟩
        · exact .inl (by simpa using h)
      · exact (ih h).imp_right fun ⟨m, hm, hc⟩ => ⟨m, List.mem_cons_of_mem _ hm, hc⟩

private theorem mem_intercalate_of_mem {c sep : Char} {l : List Char} {ls : List (List Char)}
    (hl : l ∈ ls) (hc : c ∈ l) : c ∈ [sep].intercalate ls := by
  induction ls with
  | nil => cases hl
  | cons m ls ih =>
    cases ls with
    | nil => simpa [List.mem_singleton.mp hl] using hc
    | cons m' ls =>
      rw [List.intercalate_cons_cons]
      rcases List.mem_cons.mp hl with rfl | hl
      · simp [hc]
      · exact List.mem_append_right _ (ih hl)

variable {parts : List String} {c : Char}

theorem toList_asPosix (h : parts ≠ []) :
    (asPosix parts).toList = ['/'].intercalate (parts.map String.toList) := by
  simp [asPosix, h]

theorem mem_asPosix (h : c ∈ (asPosix parts).toList) :
    c = '/' ∨ c = '.' ∨ ∃ part ∈ parts, c ∈ part.toList := by
  by_cases hparts : parts = []
  · subst hparts
    exact .inr (.inl (by simpa [asPosix] using h))
  · rw [toList_asPosix hparts] at h
    refine (mem_intercalate h).imp_right fun ⟨l, hl, hc⟩ => .inr ?_
    obtain ⟨part, hpart, rfl⟩ := List.mem_map.mp hl
    exact ⟨part, hpart, hc⟩

theorem mem_asPosix_of_mem {part : String} (hpart : part ∈ parts) (hc : c ∈ part.toList) :
    c ∈ (asPosix parts).toList := by
  rw [toList_asPosix (List.ne_nil_of_mem hpart)]
  exact mem_intercalate_of_mem (List.mem_map_of_mem hpart) hc

/-- Names read back from the text they are written as. -/
theorem pureParts_asPosix (h : ∀ part ∈ parts, IsName part) : pureParts (asPosix parts) = parts := by
  by_cases hparts : parts = []
  · subst hparts
    decide
  · have hsplit : (asPosix parts).toList.splitOn '/' = parts.map String.toList := by
      rw [toList_asPosix hparts]
      refine List.splitOn_intercalate '/' (fun l hl => ?_) (by simpa using hparts)
      obtain ⟨part, hpart, rfl⟩ := List.mem_map.mp hl
      exact (h part hpart).2.1
    rw [pureParts, hsplit, List.map_map]
    have hid : String.ofList ∘ String.toList = id := by
      funext part
      simp
    rw [hid, List.map_id, List.filter_eq_self]
    intro part hpart
    have hdots := (h part hpart).1
    simp only [IsDots, not_or] at hdots
    simp [hdots.1, hdots.2.1]

theorem not_absolute_asPosix (h : ∀ part ∈ parts, IsName part) : isAbsolute (asPosix parts) = false := by
  have hhead : ∃ c cs, (asPosix parts).toList = c :: cs ∧ c ≠ '/' := by
    cases parts with
    | nil => exact ⟨'.', [], by decide, by decide⟩
    | cons part rest =>
      obtain ⟨hdots, hslash, _⟩ := h part (by simp)
      cases hpart : part.toList with
      | nil => exact absurd (.inl (String.toList_eq_nil_iff.mp hpart)) hdots
      | cons c cs =>
        have hc : c ≠ '/' := by
          rintro rfl
          exact hslash (by simp [hpart])
        rw [toList_asPosix (by simp)]
        cases rest with
        | nil => exact ⟨c, cs, by simp [hpart], hc⟩
        | cons part' rest =>
          refine ⟨c, cs ++ ['/'] ++ ['/'].intercalate ((part' :: rest).map String.toList), ?_, hc⟩
          simp [List.intercalate_cons_cons, hpart]
  obtain ⟨c, cs, hcs, hc⟩ := hhead
  unfold isAbsolute pureRoot
  rw [hcs]
  split <;> rename_i heq
  · exact absurd (List.cons.inj heq).1 hc
  · exact absurd (List.cons.inj heq).1 hc
  · exact absurd (List.cons.inj heq).1 hc
  · rfl

theorem dot_mem_of_allowed {name : String} (h : isAllowedName name = true) : '.' ∈ name.toList := by
  by_contra hdot
  have hsuffix : suffix name = "" := by
    have hall : name.toList.reverse.takeWhile (· ≠ '.') = name.toList.reverse := by
      rw [List.takeWhile_eq_self_iff]
      intro c hc
      have : c ≠ '.' := by
        rintro rfl
        exact hdot (by simpa using hc)
      simpa using this
    simp only [suffix, hall, List.length_reverse]
    rw [if_neg (by omega)]
  simp only [isAllowedName, hsuffix, Bool.or_eq_true, decide_eq_true_eq] at h
  rcases h with h | h
  · rw [List.mem_singleton.mp h] at hdot
    exact hdot (by decide)
  · exact absurd h (by decide)

/-- Names make a path that the string rules let through, unless one of them is `.git` or holds a
backslash. -/
theorem shaped_asPosix (h : ∀ part ∈ parts, IsName part)
    (hallowed : parts = [] ∨ isAllowedName (pathName parts) = true) :
    Shaped (asPosix parts) ↔ ".git" ∉ parts ∧ ∀ part ∈ parts, '\\' ∉ part.toList := by
  constructor
  · intro hs
    have hparts := hs.parts
    rw [pureParts_asPosix h] at hparts
    exact ⟨fun hgit => (hparts _ hgit).2 (by decide),
      fun part hpart hc => hs.noBackslash (mem_asPosix_of_mem hpart hc)⟩
  · rintro ⟨hgit, hbackslash⟩
    have hdot : '.' ∈ (asPosix parts).toList := by
      rcases hallowed with rfl | hallowed
      · decide
      · have hne : parts ≠ [] := by
          rintro rfl
          exact absurd hallowed (by decide)
        have hlast : pathName parts ∈ parts := by
          rw [← dropLast_pathName hne]
          simp [pathName]
        exact mem_asPosix_of_mem hlast (dot_mem_of_allowed hallowed)
    refine ⟨?_, fun hc => ?_, fun hc => ?_, not_absolute_asPosix h, fun part hpart => ?_⟩
    · unfold isBlank
      rw [List.all_eq_false]
      exact ⟨'.', hdot, by decide⟩
    · rcases mem_asPosix hc with heq | heq | ⟨part, hpart, hc⟩
      · exact absurd heq (by decide)
      · exact absurd heq (by decide)
      · exact hbackslash part hpart hc
    · rcases mem_asPosix hc with heq | heq | ⟨part, hpart, hc⟩
      · exact absurd heq (by decide)
      · exact absurd heq (by decide)
      · exact (h part hpart).2.2 hc
    · rw [pureParts_asPosix h] at hpart
      refine ⟨fun heq => (h part hpart).1 (.inr (.inr heq)), fun hforbidden => ?_⟩
      rw [List.mem_singleton.mp hforbidden] at hpart
      exact hgit hpart

end PlatformPaths

end KeelsonDocker
