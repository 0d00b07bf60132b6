import KeelsonDocker.Guard
import KeelsonDocker.PlatformPaths

/-!
# `platform_guard.py`: who may change what in the platforms repository

Four gates, none derived from another; the decision rests on the repository-relative path alone.
-/

namespace KeelsonDocker

/-- Read-only unless told otherwise, then only for named paths. -/
structure FileGuard where
  writeEnabled : Bool := false
  writeGlobs : List String := []
  /-- Empty is the switch: there is no separate flag for deletion. -/
  deleteGlobs : List String := []
  gitEnabled : Bool := false
  pushEnabled : Bool := false
  deriving DecidableEq

namespace FileGuard

def deleteEnabled (guard : FileGuard) : Bool := guard.writeEnabled && !guard.deleteGlobs.isEmpty

/-- `_against`. -/
def against (globs : List String) (listName relative : String) : Decision :=
  if !globs.any (PlatformPaths.pathMatches relative) then
    { allowed := false
      reason := pyRepr relative ++ " is not in this responder's " ++ listName ++ " allow-list (" ++
        joinGlobs globs ++ ")" }
  else .ALLOWED

/-- Whether a path may be written. -/
def decideWrite (guard : FileGuard) (relative : String) : Decision :=
  if !guard.writeEnabled then
    { allowed := false
      reason := "this responder is read-only (start it with --allow-write and --allow-path GLOB)" }
  else against guard.writeGlobs "write" relative

/-- Whether a path may be deleted; never falls through to `decideWrite`. -/
def decideDelete (guard : FileGuard) (relative : String) : Decision :=
  if !guard.writeEnabled then
    { allowed := false
      reason := "this responder is read-only (start it with --allow-write, then --allow-delete GLOB)" }
  else if guard.deleteGlobs.isEmpty then
    { allowed := false
      reason := "file deletion is disabled on this responder; enabling editing does not enable it " ++
        "(start it with --allow-delete GLOB)" }
  else against guard.deleteGlobs "delete" relative

/-- What `FileInfo.writable` should say. -/
def writable (guard : FileGuard) (relative : String) : Bool := (guard.decideWrite relative).allowed

/-- What `FileInfo.deletable` should say. -/
def deletable (guard : FileGuard) (relative : String) : Bool := (guard.decideDelete relative).allowed

end FileGuard

end KeelsonDocker
