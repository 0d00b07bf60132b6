import KeelsonDocker.PlatformRepo

/-!
# `platform_write.py`: changing a file in the platforms repository

`check_base_sha` and `atomic_write` as a sequence of stages, each of which is one call of the operating
system that changes the tree, or the reads before it. A `Chance` says how the call of a stage turns out:
carried out on the tree, or failing with an `OSError` of its own.
-/

namespace KeelsonDocker

open FileSystem

namespace PlatformWrite

/-- `check_base_sha`. The empty string means that the file is expected not to exist. -/
def checkBaseSha (sha256Of : Bytes → String) (t : FileTree Bytes) (path : Path) (baseSha256 : String) :
    Except Exn Bytes := do
  let there ← isFile t path
  if baseSha256 = "" then
    if there then
      .error (.repo .invalidState ("this file already exists; read it and pass its sha256 " ++
        "as base_sha256 to replace it"))
    else .ok []
  else if !there then
    .error (.repo .invalidState "the file no longer exists; it was deleted after you read it")
  else do
    let current ← sys path (t.read path)
    let actual := sha256Of current
    if actual ≠ baseSha256 then
      .error (.repo .invalidState ("the file changed on disk since you read it (expected " ++
        String.ofList (baseSha256.toList.take 12) ++ ", found " ++
        String.ofList (actual.toList.take 12) ++ "); re-read it and re-apply your edit"))
    else .ok current

/-- `path.parent` -/
def parent (path : Path) : Path := path.dropLast

/-- The reads `atomic_write` begins with: the mode the file is to have. -/
def targetMode (t : FileTree Bytes) (path : Path) : Except Exn Nat := do
  if !(← isDir t (parent path)) then
    throw (.repo .notFound ("no such directory: " ++ pathName (parent path) ++ "/ -- this interface " ++
      "edits an entity's configuration, it does not create entities"))
  if ← isFile t path then
    match ← sys path (t.stat path) with
    | .file mode _ => return mode % 0o1000
    | _ => return 0
  else return 0o644

/-- How the call of a stage turns out. -/
structure Chance where
  /-- The error it fails with, if it fails whatever the tree. -/
  fault : Option Errno := none
  /-- The random part of a temporary file's name. -/
  random : String := ""
  /-- What a failing write leaves in the file. -/
  written : Bytes := []

/-- The temporary file: its name in the parent directory, and the place its descriptor is open on. -/
structure Temp where
  name : String
  place : Path
  deriving DecidableEq, Repr

/-- `tempfile.TMP_MAX`, which is `os.TMP_MAX`, that of glibc. -/
def TMP_MAX : Nat := 238328

inductive Stage
  | checking
  | preparing
  /-- `mkstemp`, with so many names left to try. -/
  | creating (mode tries : Nat)
  | writing (mode : Nat) (tmp : Temp)
  | syncing (mode : Nat) (tmp : Temp)
  | chmodding (mode : Nat) (tmp : Temp)
  | replacing (tmp : Temp)
  | cleaning (tmp : Temp) (exc : Exn)
  | ended (result : Except Exn Unit)

/-- What one save is about. -/
structure Save where
  path : Path
  content : Bytes
  baseSha256 : String

/-- `raise RepoError(IO_FAILURE, f"could not write: {exc}")`. -/
def couldNotWrite (text : String) : Exn := .repo .ioFailure ("could not write: " ++ text)

def tempName (path : Path) (random : String) : String :=
  "." ++ pathName path ++ "." ++ random ++ ".tmp"

variable (sha256Of : Bytes → String) (save : Save)

/-- One stage, as its chance has it. -/
def advance (chance : Chance) : Stage → FileTree Bytes → Stage × FileTree Bytes
  | .checking, t =>
    match checkBaseSha sha256Of t save.path save.baseSha256 with
    | .ok _ => (.preparing, t)
    | .error e => (.ended (.error e), t)
  | .preparing, t =>
    match targetMode t save.path with
    | .ok mode => (.creating mode TMP_MAX, t)
    | .error e => (.ended (.error e), t)
  | .creating _ 0, t =>
    (.ended (.error (.os "[Errno 17] No usable temporary file name found")), t)
  | .creating mode (tries + 1), t =>
    let name := tempName save.path chance.random
    let tmp := parent save.path ++ [name]
    match chance.fault with
    | some e => (.ended (.error (osError e tmp)), t)
    | none =>
      match t.create (parent save.path) name 0o600 [] with
      | .ok (place, t') => (.writing mode ⟨name, place⟩, t')
      | .error .exist => (.creating mode tries, t)
      | .error e => (.ended (.error (osError e tmp)), t)
  | .writing mode tmp, t =>
    match chance.fault with
    | some e => (.cleaning tmp (couldNotWrite (errnoText e)), t.write tmp.place chance.written)
    | none => (.syncing mode tmp, t.write tmp.place save.content)
  | .syncing mode tmp, t =>
    match chance.fault with
    | some e => (.cleaning tmp (couldNotWrite (errnoText e)), t)
    | none => (.chmodding mode tmp, t)
  | .chmodding mode tmp, t =>
    let path := parent save.path ++ [tmp.name]
    match chance.fault with
    | some e => (.cleaning tmp (couldNotWrite (osErrorText e path)), t)
    | none =>
      match t.chmod path mode with
      | .ok t' => (.replacing tmp, t')
      | .error e => (.cleaning tmp (couldNotWrite (osErrorText e path)), t)
  | .replacing tmp, t =>
    let text e := osErrorText e (parent save.path ++ [tmp.name]) ++ " -> " ++ pyRepr (pathStr save.path)
    match chance.fault with
    | some e => (.cleaning tmp (couldNotWrite (text e)), t)
    | none =>
      match t.rename (parent save.path) tmp.name (parent save.path) (pathName save.path) with
      | .ok t' => (.ended (.ok ()), t')
      | .error e => (.cleaning tmp (couldNotWrite (text e)), t)
  | .cleaning tmp exc, t =>
    match t.unlink (parent save.path) tmp.name with
    | .ok t' => (.ended (.error exc), t')
    -- `missing_ok=True`
    | .error .noent => (.ended (.error exc), t)
    | .error e => (.ended (.error (osError e (parent save.path ++ [tmp.name]))), t)
  | .ended result, t => (.ended result, t)

/-- How many stages may be left. -/
def Stage.left : Stage → Nat
  | checking => TMP_MAX + 8
  | preparing => TMP_MAX + 7
  | creating _ tries => tries + 6
  | writing .. => 5
  | syncing .. => 4
  | chmodding .. => 3
  | replacing _ => 2
  | cleaning .. => 1
  | ended _ => 0

/-- The stages from `stage` on, the `i`-th of all with the `i`-th chance. -/
def run (chances : Nat → Chance) : (left i : Nat) → Stage → FileTree Bytes → Stage × FileTree Bytes
  | 0, _, stage, t => (stage, t)
  | _, _, .ended result, t => (.ended result, t)
  | left + 1, i, stage, t =>
    let (stage', t') := advance sha256Of save (chances i) stage t
    run chances left (i + 1) stage' t'

/-- `check_base_sha(path, base_sha256)` and `atomic_write(path, content)`. -/
def saveFile (chances : Nat → Chance) (t : FileTree Bytes) : Except Exn Unit × FileTree Bytes :=
  match run sha256Of save chances Stage.checking.left 0 .checking t with
  | (.ended result, t') => (result, t')
  | (_, t') => (.error (.other "a stage is left"), t')

end PlatformWrite

end KeelsonDocker
