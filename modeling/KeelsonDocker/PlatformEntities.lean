import KeelsonDocker.Compose
import KeelsonDocker.PlatformHandlers

/-!
# `platform_handlers.py`: listing the entities

`handle_list_entities` and what it calls of `platform_repo.py`.
-/

namespace KeelsonDocker

open FileSystem

structure EntityInfo where
  name : String
  relativePath : String
  fileCount : Int
  serviceCount : Option Int := none
  hasReadme : Bool
  dirty : Bool
  deriving DecidableEq, Repr

structure ListEntitiesResponse where
  entities : List EntityInfo
  repo : Option RepoStatus := none
  writeEnabled : Bool
  deleteEnabled : Bool
  gitEnabled : Bool
  pushEnabled : Bool
  deriving DecidableEq, Repr

namespace PlatformRepo

/-- The entries of `platforms/` that are directories and not hidden. -/
def entitiesAmong (t : FileTree Bytes) (base : Path) : List String → Except Exn (List String)
  | [] => .ok []
  | name :: names => do
    let listed := (← isDir t (base ++ [name])) && !decide (".".toList <+: name.toList)
    let entities ← entitiesAmong t base names
    return if listed then name :: entities else entities

/-- `list_entity_names` -/
def listEntityNames (t : FileTree Bytes) (root : Path) : Except Exn (List String) := do
  let base := platformsDir root
  if !(← isDir t base) then
    throw (.repo .notFound "this responder's --platforms-root has no platforms/ directory")
  let names ← sys base (t.readdir base)
  let entities ← entitiesAmong t base names
  return entities.insertionSort (· ≤ ·)

/-- `entity_is_dirty` -/
def entityIsDirty (entityRel : String) (dirty : List String) : Bool :=
  dirty.any fun p => p = entityRel ∨ (entityRel ++ "/").toList <+: p.toList

/-- `has_readme` -/
def hasReadme (paths : List Path) : Bool :=
  paths.any fun path => ".md".toList <:+ (lower (pathName path)).toList

end PlatformRepo

namespace PlatformHandlers

open PlatformRepo

variable (ctx : PlatformContext) (host : Host) (t : FileTree Bytes)

/-- One entity of the list, its services counted by `count`. -/
def entityInfo (count : List Path → Except Exn (Option Nat)) (dirty : List String) (name : String) :
    Except Exn EntityInfo := do
  let files ← listEntityFiles t ctx.root name
  let rel ← PlatformPaths.relativeToRoot t ctx.root (platformsDir ctx.root ++ [name])
  let name ← assignText host.pb name
  let relativePath ← assignText host.pb rel
  let fileCount ← uint32 files.length
  let entity : EntityInfo :=
    { name, relativePath, fileCount, hasReadme := hasReadme files, dirty := entityIsDirty rel dirty }
  match ← count files with
  | some services =>
    let serviceCount ← uint32 services
    return { entity with serviceCount := some serviceCount }
  | none => return entity

/-- The state of the tree, if `git` could tell, and what is dirty. -/
def repoStatus : Except Exn (Option RepoStatus × List String) :=
  match fillRepoStatus host with
  | .ok status => .ok (some status, status.dirtyPaths)
  | .error (.repo ..) => .ok (none, [])
  | .error e => .error e

def entitiesWith (count : List Path → Except Exn (Option Nat)) : Except Exn ListEntitiesResponse := do
  let (repo, dirty) ← repoStatus host
  let names ← listEntityNames t ctx.root
  let entities ← names.mapM (entityInfo ctx host t count dirty)
  return {
    entities, repo, writeEnabled := ctx.guard.writeEnabled, deleteEnabled := ctx.guard.deleteEnabled
    gitEnabled := ctx.guard.gitEnabled, pushEnabled := ctx.guard.pushEnabled }

/-- What `handle_list_entities` replies, or raises. -/
def listEntities {κ : Type} [DecidableEq κ] (L : Yaml.Library κ) : Except Exn ListEntitiesResponse :=
  entitiesWith ctx host t (countServices L t)

end PlatformHandlers

end KeelsonDocker
