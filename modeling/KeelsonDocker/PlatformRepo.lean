import KeelsonDocker.PlatformMessages
import KeelsonDocker.PlatformPaths
import Mathlib.Data.List.Sort

/-!
# `platform_repo.py`: reading the platforms repository

`git` is outside the package: what a query gives is a parameter. The files are those of a `FileTree`.
-/

namespace KeelsonDocker

open FileSystem

namespace PlatformRepo

def MAX_FILE_BYTES : Nat := 1048576

/-! ### Git queries -/

/-- A `CompletedProcess`, its output decoded. -/
structure Completed where
  returncode : Int
  stdout : String
  stderr : String

/-- What starting `git` and waiting for it comes to. -/
inductive GitOutcome
  | completed (proc : Completed)
  /-- `FileNotFoundError` -/
  | notInstalled
  /-- `TimeoutExpired` -/
  | timedOut
  /-- Anything else, such as output that is no UTF-8. -/
  | raised (e : Exn)

abbrev Git := List String → GitOutcome

/-- What `subprocess.run` comes to, its output not decoded yet. -/
inductive Spawned
  | exited (returncode : Int) (stdout stderr : Bytes)
  /-- `FileNotFoundError` -/
  | notFound
  | timedOut
  /-- Any other `OSError`, such as that of a file that is not executable. -/
  | refused (text : String)
  /-- `git_env` cannot tell the home directory: a `RuntimeError` of `Path.home()`. -/
  | homeless

/-- With `text=True` both streams are decoded; a `UnicodeDecodeError` is a `ValueError`. -/
def Spawned.outcome : Spawned → GitOutcome
  | .exited returncode stdout stderr =>
    match decodeText stdout, decodeText stderr with
    | some stdout, some stderr => .completed ⟨returncode, stdout, stderr⟩
    | _, _ => .raised (.py .valueError)
  | .notFound => .notInstalled
  | .timedOut => .timedOut
  | .refused text => .raised (.os text)
  | .homeless => .raised (.other "Could not determine home directory.")

/-- `git` as the processes it is run in. -/
def spawning (spawn : List String → Spawned) : Git := fun args => (spawn args).outcome

/-- `run_git`. -/
def runGit (git : Git) (args : List String) (check : Bool := true) : Except Exn Completed :=
  match git args with
  | .notInstalled =>
    .error (.repo .unavailable "git is not installed in this responder's image")
  | .timedOut =>
    .error (.repo .unavailable ("git " ++ args.head?.getD "" ++ " timed out after 20s"))
  | .raised e => .error e
  | .completed proc =>
    if check ∧ proc.returncode ≠ 0 then
      .error (.repo .ioFailure ("git " ++ " ".intercalate args ++ " failed: " ++
        strip (if proc.stderr ≠ "" then proc.stderr else proc.stdout)))
    else .ok proc

structure RepoState where
  branch : String
  headSha : String
  remoteUrl : String
  ahead : Int
  behind : Int
  dirtyPaths : List String
  detached : Bool
  deriving DecidableEq, Repr

/-- `path.split(" -> ", 1)[1]`, if the arrow is there. -/
def afterArrow : List Char → Option (List Char)
  | ' ' :: '-' :: '>' :: ' ' :: cs => some cs
  | _ :: cs => afterArrow cs
  | [] => none

/-- The path on one line of `git status --porcelain`. -/
def dirtyPath (line : String) : Option String :=
  if 3 < line.length then
    let path := strip (String.ofList (line.toList.drop 3))
    let path := ((afterArrow path.toList).map String.ofList).getD path
    some (stripBy (· = '"') path)
  else none

/-- The two counts of `git rev-list --left-right --count`: behind, ahead. -/
def divergence (stdout : String) : Except Exn (Int × Int) :=
  match splitWords stdout with
  | [behind, ahead] =>
    match pyInt behind, pyInt ahead with
    | some behind, some ahead => .ok (behind, ahead)
    | _, _ => .error (.py .valueError)
  | _ => .ok (0, 0)

/-- `read_state`. -/
def readState (git : Git) : Except Exn RepoState := do
  let head ← runGit git ["rev-parse", "HEAD"]
  let branchProc ← runGit git ["symbolic-ref", "--quiet", "--short", "HEAD"] false
  let detached : Bool := branchProc.returncode ≠ 0
  let branch := if detached then "" else strip branchProc.stdout
  let remoteProc ← runGit git ["remote", "get-url", "origin"] false
  let remoteUrl := if remoteProc.returncode = 0 then strip remoteProc.stdout else ""
  let (behind, ahead) ←
    if detached then pure (0, 0)
    else do
      let counts ← runGit git ["rev-list", "--left-right", "--count", "@\x7bupstream\x7d...HEAD"] false
      -- No upstream is an answer: neither ahead nor behind anything.
      if counts.returncode = 0 then divergence counts.stdout else pure (0, 0)
  let status ← runGit git ["status", "--porcelain", "--untracked-files=all"]
  let dirty := (splitLines status.stdout).filterMap dirtyPath
  return { branch, headSha := strip head.stdout, remoteUrl, ahead, behind
           dirtyPaths := dirty.insertionSort (· ≤ ·), detached }

/-! ### Times -/

/-- The `st_mtime` of a file in microseconds, rounded as `fromtimestamp` does, or the `OSError` of `stat`. -/
abbrev Mtime := Except String Int

/-- The seconds that a `time_t` holds. -/
def InTimeT (seconds : Int) : Prop := -2 ^ 63 ≤ seconds ∧ seconds < 2 ^ 63

/-- The seconds whose year `gmtime` can tell. -/
def InGmtime (seconds : Int) : Prop := -67768040609740800 ≤ seconds ∧ seconds ≤ 67768036191676799

/-- The seconds of the years 1 to 9999. -/
def InYears (seconds : Int) : Prop := -62135596800 ≤ seconds ∧ seconds < 253402300800

instance (seconds : Int) : Decidable (InTimeT seconds) := inferInstanceAs (Decidable (_ ∧ _))
instance (seconds : Int) : Decidable (InGmtime seconds) := inferInstanceAs (Decidable (_ ∧ _))
instance (seconds : Int) : Decidable (InYears seconds) := inferInstanceAs (Decidable (_ ∧ _))

/-- `datetime.fromtimestamp(st_mtime, tz=UTC)` -/
def fromTimestamp (micros : Int) : Except Exn Timestamp :=
  let seconds := micros / 1000000
  if ¬ InTimeT seconds then .error (.py .overflowError)
  else if ¬ InGmtime seconds then .error (.os "[Errno 75] Value too large for defined data type")
  else if ¬ InYears seconds then .error (.py .valueError)
  else .ok ⟨seconds, micros % 1000000 * 1000⟩

/-- `modified_at`, of the file with this time. -/
def modifiedAt (mtime : Mtime) : Except Exn (Option Timestamp) :=
  match mtime with
  | .error _ => .ok none
  | .ok micros =>
    match fromTimestamp micros with
    | .ok stamp => .ok (some stamp)
    | .error (.os _) => .ok none
    | .error e => .error e

/-- `last_fetch_at`, which does the same with `.git/FETCH_HEAD`. -/
def lastFetchAt (fetchHead : Mtime) : Except Exn (Option Timestamp) := modifiedAt fetchHead

/-! ### Files -/

/-- `platforms_dir`. -/
def platformsDir (root : List String) : List String := root ++ ["platforms"]

/-- The entries of a directory that are files with an allowed name. -/
def filesAmong (t : FileTree Bytes) (base : List String) : List String → Except Exn (List String)
  | [] => .ok []
  | name :: names => do
    let listed := (← isFile t (base ++ [name])) && PlatformPaths.isAllowedName name
    let files ← filesAmong t base names
    return if listed then name :: files else files

/-- `list_entity_files`. -/
def listEntityFiles (t : FileTree Bytes) (root : List String) (entity : String) :
    Except Exn (List (List String)) := do
  let base := platformsDir root ++ [entity]
  if !(← isDir t base) then throw (.repo .notFound ("no such entity: " ++ pyRepr entity))
  let names ← sys base (t.readdir base)
  let files ← filesAmong t base names
  return (files.insertionSort (· ≤ ·)).map fun name => base ++ [name]

/-- `read_bytes`: the content, and whether it is cut. -/
def readBytes (t : FileTree Bytes) (path : Path) : Except Exn (Bytes × Bool) :=
  match t.read path with
  | .error e => .error (.repo .ioFailure ("could not read: " ++ osErrorText e path))
  | .ok data => .ok (if MAX_FILE_BYTES < data.length then (data.take MAX_FILE_BYTES, true) else (data, false))

/-- `path.stat().st_size`; the size of a directory is the file system's affair. -/
def statSize (t : FileTree Bytes) (path : List String) : Except Exn Nat :=
  match t.stat path with
  | .ok (.file _ content) => .ok content.length
  | .ok _ => .ok 4096
  | .error e => .error (osError e path)

end PlatformRepo

end KeelsonDocker
