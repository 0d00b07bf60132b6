import KeelsonDocker.PlatformEntities

/-!
# `platform_handlers.py`: the seven procedures, whatever their calls come to

The handlers again, over any `Calls`: each function of the package or of the system they call may come
back with anything or raise anything. Lists have the time here at which they were observed.
-/

namespace KeelsonDocker

open FileSystem

namespace PlatformService

structure ListEntitiesResponse extends KeelsonDocker.ListEntitiesResponse where
  observedAt : Timestamp
  deriving DecidableEq, Repr

structure ListFilesResponse extends KeelsonDocker.ListFilesResponse where
  observedAt : Timestamp
  deriving DecidableEq, Repr

structure RepoStatusResponse where
  repo : RepoStatus
  writeEnabled : Bool
  deleteEnabled : Bool
  gitEnabled : Bool
  pushEnabled : Bool
  deriving DecidableEq, Repr

inductive Response
  | listEntities (r : ListEntitiesResponse)
  | listFiles (r : ListFilesResponse)
  | readFile (r : ReadFileResponse)
  | repoStatus (r : RepoStatusResponse)
  | writeFile (r : WriteFileResponse)
  deriving DecidableEq, Repr

inductive Reply
  | ok (response : Response)
  | err (description : String) (code : Code)
  deriving DecidableEq, Repr

/-- What the handlers call. -/
structure Calls (m : Type → Type) where
  /-- `datetime.now(tz=UTC)` -/
  now : m Timestamp
  resolve : (relative : String) → (mustBeFile : Bool) → m Path
  relative : Path → m String
  readState : m PlatformRepo.RepoState
  lastFetchAt : m (Option Timestamp)
  listEntityNames : m (List String)
  listEntityFiles : (entity : String) → m (List Path)
  countServices : List Path → m (Option Nat)
  readBytes : Path → m (Bytes × Bool)
  /-- `path.stat().st_size` -/
  statSize : Path → m Nat
  modifiedAt : Path → m (Option Timestamp)
  checkBaseSha : Path → (baseSha256 : String) → m Unit
  atomicWrite : Path → (content : Bytes) → m Unit

/-- The calls, made elsewhere. -/
def Calls.map {m n : Type → Type} (f : {α : Type} → m α → n α) (calls : Calls m) : Calls n where
  now := f calls.now
  resolve relative mustBeFile := f (calls.resolve relative mustBeFile)
  relative path := f (calls.relative path)
  readState := f calls.readState
  lastFetchAt := f calls.lastFetchAt
  listEntityNames := f calls.listEntityNames
  listEntityFiles entity := f (calls.listEntityFiles entity)
  countServices files := f (calls.countServices files)
  readBytes path := f (calls.readBytes path)
  statSize path := f (calls.statSize path)
  modifiedAt path := f (calls.modifiedAt path)
  checkBaseSha path baseSha256 := f (calls.checkBaseSha path baseSha256)
  atomicWrite path content := f (calls.atomicWrite path content)

/-- What a request is handled with. -/
structure Service (m : Type → Type) where
  context : PlatformContext
  pb : PlatformProtobuf
  sha256Of : Bytes → String
  calls : Calls m
  reply : Reply → m Unit

variable {m : Type → Type} [Monad m] [MonadExcept Exn m]

/-- A step that may raise, without a call. -/
def lift : Except Exn α → m α
  | .ok a => pure a
  | .error e => throw e

/-- `FromString`; a `DecodeError` is no `RepoError`. -/
def decode : Except String α → m α
  | .ok request => pure request
  | .error exc => throw (.other exc)

/-- `_fill_repo_status` -/
def fillRepoStatus (calls : Calls m) : m RepoStatus := do
  let state ← calls.readState
  let ahead ← lift (uint32 state.ahead)
  let behind ← lift (uint32 state.behind)
  let lastFetchAt ← calls.lastFetchAt
  return {
    branch := state.branch, headSha := state.headSha, remoteUrl := state.remoteUrl, ahead, behind
    dirtyPaths := state.dirtyPaths, detached := state.detached, lastFetchAt }

/-- `except repo.RepoError`: without the state of the tree. -/
def withoutStatus : Exn → m (Option RepoStatus)
  | .repo .. => pure none
  | e => throw e

/-- The state of the tree, if `git` can tell. -/
def bestEffortStatus (calls : Calls m) : m (Option RepoStatus) :=
  tryCatch (some <$> fillRepoStatus calls) withoutStatus

variable (s : Service m)

/-- `_file_info` -/
def fileInfo (dirty : List String) (path : Path) : m FileInfo := do
  let rel ← s.calls.relative path
  let sizeBytes ← s.calls.statSize path
  let name ← lift (assignText s.pb (pathName path))
  let relativePath ← lift (assignText s.pb rel)
  let modifiedAt ← s.calls.modifiedAt path
  return {
    name, relativePath, sizeBytes, kind := PlatformHandlers.kind (pathName path), dirty := rel ∈ dirty
    writable := s.context.guard.writable rel, deletable := s.context.guard.deletable rel, modifiedAt }

/-- One round of the loop of `handle_list_entities`. -/
def entityInfo (dirty : List String) (name : String) : m EntityInfo := do
  let files ← s.calls.listEntityFiles name
  let rel ← s.calls.relative (PlatformRepo.platformsDir s.context.root ++ [name])
  let name ← lift (assignText s.pb name)
  let relativePath ← lift (assignText s.pb rel)
  let fileCount ← lift (uint32 files.length)
  let entity : EntityInfo :=
    { name, relativePath, fileCount, hasReadme := PlatformRepo.hasReadme files
      dirty := PlatformRepo.entityIsDirty rel dirty }
  match ← s.calls.countServices files with
  | some services =>
    let serviceCount ← lift (uint32 services)
    return { entity with serviceCount := some serviceCount }
  | none => return entity

def handleListEntities (_raw : Bytes) : m Unit := do
  let repo ← bestEffortStatus s.calls
  let observedAt ← s.calls.now
  let names ← s.calls.listEntityNames
  let entities ← names.mapM (entityInfo s ((repo.map (·.dirtyPaths)).getD []))
  s.reply (.ok (.listEntities {
    entities, repo, observedAt
    writeEnabled := s.context.guard.writeEnabled, deleteEnabled := s.context.guard.deleteEnabled
    gitEnabled := s.context.guard.gitEnabled, pushEnabled := s.context.guard.pushEnabled }))

def handleListFiles (raw : Bytes) : m Unit := do
  let request ← decode (s.pb.listFilesRequest raw)
  if request.entity = "" then throw (.repo .invalidArgument "entity is required")
  if request.entity.toList.contains '/' ∨ request.entity ∈ [".", ".."] then
    throw (.repo .invalidArgument "entity must be a directory name, not a path")
  let state ← s.calls.readState
  let observedAt ← s.calls.now
  let paths ← s.calls.listEntityFiles request.entity
  let files ← paths.mapM (fileInfo s state.dirtyPaths)
  s.reply (.ok (.listFiles { entity := request.entity, files, observedAt }))

def handleReadFile (raw : Bytes) : m Unit := do
  let request ← decode (s.pb.readFileRequest raw)
  let path ← s.calls.resolve request.path true
  let rel ← s.calls.relative path
  let (content, truncated) ← s.calls.readBytes path
  let sizeBytes ← s.calls.statSize path
  let reported ← lift (assignText s.pb rel)
  let modifiedAt ← s.calls.modifiedAt path
  s.reply (.ok (.readFile {
    path := reported, content, sha256 := s.sha256Of content, sizeBytes
    writable := s.context.guard.writable rel, truncated, modifiedAt }))

/-- `handle_write_file`; the lock it holds while it saves is in `WriteRun.lean`. -/
def handleWriteFile (raw : Bytes) : m Unit := do
  let request ← decode (s.pb.writeFileRequest raw)
  let path ← s.calls.resolve request.path false
  let rel ← s.calls.relative path
  let decision := s.context.guard.decideWrite rel
  if !decision.allowed then s.reply (.err decision.reason decision.code)
  else
    s.calls.checkBaseSha path request.baseSha256
    s.calls.atomicWrite path request.content
    -- The file is on disk: what `git` says now decides nothing.
    let reported ← lift (assignText s.pb rel)
    let repo ← bestEffortStatus s.calls
    s.reply (.ok (.writeFile {
      path := reported, sha256 := s.sha256Of request.content, pushed := false, repo }))

def handleRepoStatus (_raw : Bytes) : m Unit := do
  let repo ← fillRepoStatus s.calls
  s.reply (.ok (.repoStatus {
    repo
    writeEnabled := s.context.guard.writeEnabled, deleteEnabled := s.context.guard.deleteEnabled
    gitEnabled := s.context.guard.gitEnabled, pushEnabled := s.context.guard.pushEnabled }))

/-- `_not_built` -/
def notBuilt (name : String) (_raw : Bytes) : m Unit :=
  throw (.repo .unavailable
    (name ++ " is declared by this interface but not implemented in this build"))

/-- `_guarded`: the two typed failures become replies. -/
def answer : Exn → m Unit
  | .path message => s.reply (.err message .invalidArgument)
  | .repo code message => s.reply (.err message code)
  | e => throw e

def guarded (handler : Bytes → m Unit) (raw : Bytes) : m Unit :=
  tryCatch (handler raw) (answer s)

inductive Procedure
  | listEntities | listFiles | readFile | repoStatus | writeFile | deleteFile | sync
  deriving DecidableEq, Repr

/-- `build` -/
def build : Procedure → Bytes → m Unit
  | .listEntities => guarded s (handleListEntities s)
  | .listFiles => guarded s (handleListFiles s)
  | .readFile => guarded s (handleReadFile s)
  | .repoStatus => guarded s (handleRepoStatus s)
  | .writeFile => guarded s (handleWriteFile s)
  | .deleteFile => guarded s (notBuilt "delete_file")
  | .sync => guarded s (notBuilt "sync")

/-! ### Handlers that keep their replies -/

structure World (σ : Type) where
  system : σ
  replies : List Reply := []

variable {σ : Type}

/-- A call made to a system in a state of its own: no reply comes of it. -/
def outside (x : EStateM Exn σ α) : EStateM Exn (World σ) α := fun w =>
  match x w.system with
  | .ok a system => .ok a { w with system }
  | .error e system => .error e { w with system }

def recordReply (reply : Reply) : EStateM Exn (World σ) Unit := fun w =>
  .ok () { w with replies := w.replies ++ [reply] }

/-- A responder whose calls turn out as this system has it. -/
def responder (context : PlatformContext) (pb : PlatformProtobuf) (sha256Of : Bytes → String)
    (calls : Calls (EStateM Exn σ)) : Service (EStateM Exn (World σ)) where
  context
  pb
  sha256Of
  calls := calls.map outside
  reply := recordReply

end PlatformService

end KeelsonDocker
