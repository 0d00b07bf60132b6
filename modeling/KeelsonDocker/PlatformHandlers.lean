import KeelsonDocker.PlatformGuard
import KeelsonDocker.PlatformWrite

/-!
# `platform_handlers.py`: listing, reading and writing files

A handler runs on a tree and a list of replies. `Host` is what it calls outside the package and the
tree: `git`, SHA-256, the protobuf runtime, the times of files, and how the calls of a save turn out.
-/

namespace KeelsonDocker

open Effect FileSystem

structure PlatformContext where
  root : List String
  guard : FileGuard

structure Host where
  git : PlatformRepo.Git
  /-- `hashlib.sha256(data).hexdigest()` -/
  sha256Of : Bytes → String
  pb : PlatformProtobuf
  chances : Nat → PlatformWrite.Chance
  /-- The time of `.git/FETCH_HEAD`; there is no such file before the first fetch. -/
  fetchHead : PlatformRepo.Mtime := .error "[Errno 2] No such file or directory"
  /-- The times of the files. -/
  mtime : Path → PlatformRepo.Mtime := fun _ => .error "[Errno 2] No such file or directory"

inductive PlatformResponse
  | listFiles (r : ListFilesResponse)
  | readFile (r : ReadFileResponse)
  | writeFile (r : WriteFileResponse)
  deriving DecidableEq, Repr

inductive PlatformReply
  | ok (response : PlatformResponse)
  | err (description : String) (code : Code)
  deriving DecidableEq, Repr

structure PlatformWorld where
  tree : FileTree Bytes
  replies : List PlatformReply := []

abbrev PlatformProc := EStateM Exn PlatformWorld

namespace PlatformHandlers

def reply (r : PlatformReply) : PlatformProc Unit :=
  modify fun w => { w with replies := w.replies ++ [r] }

/-- A step that only reads the tree. -/
def reading (f : FileTree Bytes → Except Exn α) : PlatformProc α := fun w =>
  match f w.tree with
  | .ok a => .ok a w
  | .error e => .error e w

/-- `FromString`; a `DecodeError` is no `RepoError`. -/
def decode (decoded : Except String α) : PlatformProc α :=
  match decoded with
  | .ok request => pure request
  | .error exc => throw (.other exc)

section

variable {w w' : PlatformWorld} {a : α}

theorem reading_eq_ok {f : FileTree Bytes → Except Exn α} :
    reading f w = .ok a w' ↔ f w.tree = .ok a ∧ w' = w := by
  unfold reading
  cases f w.tree <;> simp [eq_comm]

theorem decode_eq_ok {decoded : Except String α} :
    decode decoded w = .ok a w' ↔ decoded = .ok a ∧ w' = w := by
  cases decoded with
  | ok b => simp [decode, eq_comm]
  | error exc => simp [decode]

theorem reply_eq_ok {r : PlatformReply} :
    reply r w = .ok () w' ↔ w' = { w with replies := w.replies ++ [r] } := by
  simp [reply, eq_comm]

end

/-- `_kind` -/
def kind (name : String) : FileKind :=
  let low := lower name
  let ends (s : String) : Bool := s.toList <:+ low.toList
  if "docker-compose".toList <+: low.toList ∨ low = "compose.yml" ∨ low = "compose.yaml" then .compose
  else if low = ".env" ∨ ".env.".toList <+: low.toList then .env
  else if ends ".yml" || ends ".yaml" then .yaml
  else if ends ".json" || ends ".json5" then .json
  else if ends ".md" then .markdown
  else .other

variable (ctx : PlatformContext) (host : Host)

/-- `_fill_repo_status` -/
def fillRepoStatus : Except Exn RepoStatus := do
  let state ← PlatformRepo.readState host.git
  let ahead ← uint32 state.ahead
  let behind ← uint32 state.behind
  let lastFetchAt ← PlatformRepo.lastFetchAt host.fetchHead
  return {
    branch := state.branch, headSha := state.headSha, remoteUrl := state.remoteUrl, ahead, behind
    dirtyPaths := state.dirtyPaths, detached := state.detached, lastFetchAt }

/-- `_file_info` -/
def fileInfo (t : FileTree Bytes) (path dirty : List String) : Except Exn FileInfo := do
  let rel ← PlatformPaths.relativeToRoot t ctx.root path
  let sizeBytes ← PlatformRepo.statSize t path
  let name ← assignText host.pb (pathName path)
  let relativePath ← assignText host.pb rel
  let modifiedAt ← PlatformRepo.modifiedAt (host.mtime path)
  return {
    name, relativePath, sizeBytes, kind := kind (pathName path), dirty := rel ∈ dirty
    writable := ctx.guard.writable rel, deletable := ctx.guard.deletable rel, modifiedAt }

/-- What is said of a file, if anything is. -/
theorem fileInfo_eq_ok {ctx : PlatformContext} {host : Host} {t : FileTree Bytes} {path dirty : List String}
    {info : FileInfo} (h : fileInfo ctx host t path dirty = .ok info) :
    PlatformPaths.relativeToRoot t ctx.root path = .ok info.relativePath ∧
      info.name = pathName path ∧ info.kind = kind (pathName path) ∧
      info.dirty = decide (info.relativePath ∈ dirty) ∧
      info.writable = ctx.guard.writable info.relativePath := by
  obtain ⟨rel, hrel, h⟩ := bind_eq_ok.mp h
  obtain ⟨size, -, h⟩ := bind_eq_ok.mp h
  obtain ⟨name, hname, h⟩ := bind_eq_ok.mp h
  obtain ⟨relativePath, hpath, h⟩ := bind_eq_ok.mp h
  obtain ⟨modifiedAt, -, h⟩ := bind_eq_ok.mp h
  obtain ⟨-, rfl⟩ := assignText_eq_ok.mp hname
  obtain ⟨-, rfl⟩ := assignText_eq_ok.mp hpath
  cases h
  exact ⟨hrel, rfl, rfl, rfl, rfl⟩

/-- What `handle_list_files` makes of an entity that is a directory's name. -/
def listing (t : FileTree Bytes) (entity : String) : Except Exn ListFilesResponse := do
  let state ← PlatformRepo.readState host.git
  let paths ← PlatformRepo.listEntityFiles t ctx.root entity
  let files ← paths.mapM fun path => fileInfo ctx host t path state.dirtyPaths
  return { entity, files }

def handleListFiles (raw : Bytes) : PlatformProc Unit := do
  let request ← decode (host.pb.listFilesRequest raw)
  if request.entity = "" then throw (.repo .invalidArgument "entity is required")
  if request.entity.toList.contains '/' ∨ request.entity ∈ [".", ".."] then
    throw (.repo .invalidArgument "entity must be a directory name, not a path")
  let response ← reading fun t => listing ctx host t request.entity
  reply (.ok (.listFiles response))

/-- What `handle_read_file` makes of a file, but for its time. -/
def contentsAt (t : FileTree Bytes) (path : Path) : Except Exn ReadFileResponse := do
  let rel ← PlatformPaths.relativeToRoot t ctx.root path
  let (content, truncated) ← PlatformRepo.readBytes t path
  let sizeBytes ← PlatformRepo.statSize t path
  return {
    path := rel, content, sha256 := host.sha256Of content, sizeBytes
    writable := ctx.guard.writable rel, truncated }

/-- What it makes of a path. -/
def contents (t : FileTree Bytes) (relative : String) : Except Exn ReadFileResponse := do
  let path ← PlatformPaths.resolve t ctx.root relative true
  contentsAt ctx host t path

/-- The response as a message, with its time. -/
def dated (path : Path) (response : ReadFileResponse) : Except Exn ReadFileResponse := do
  let rel ← assignText host.pb response.path
  let modifiedAt ← PlatformRepo.modifiedAt (host.mtime path)
  return { response with path := rel, modifiedAt }

/-- What `handle_read_file` replies, or raises. -/
def readReply (t : FileTree Bytes) (relative : String) : Except Exn ReadFileResponse := do
  let path ← PlatformPaths.resolve t ctx.root relative true
  let response ← contentsAt ctx host t path
  dated host path response

/-- Only the time is added to what the path's file is. -/
theorem dated_eq_ok {host : Host} {path : Path} {response r : ReadFileResponse}
    (h : dated host path response = .ok r) : r = { response with modifiedAt := r.modifiedAt } := by
  obtain ⟨rel, hrel, h⟩ := bind_eq_ok.mp h
  obtain ⟨modifiedAt, -, h⟩ := bind_eq_ok.mp h
  obtain ⟨-, rfl⟩ := assignText_eq_ok.mp hrel
  cases h
  rfl

theorem readReply_eq_ok {ctx : PlatformContext} {host : Host} {t : FileTree Bytes} {relative : String}
    {r : ReadFileResponse} (h : readReply ctx host t relative = .ok r) :
    ∃ response, contents ctx host t relative = .ok response ∧
      r = { response with modifiedAt := r.modifiedAt } := by
  obtain ⟨path, hpath, h⟩ := bind_eq_ok.mp h
  obtain ⟨response, hresponse, h⟩ := bind_eq_ok.mp h
  exact ⟨response, bind_eq_ok.mpr ⟨path, hpath, hresponse⟩, dated_eq_ok h⟩

def handleReadFile (raw : Bytes) : PlatformProc Unit := do
  let request ← decode (host.pb.readFileRequest raw)
  let response ← reading fun t => readReply ctx host t request.path
  reply (.ok (.readFile response))

/-- What `handle_write_file` decides before it takes the lock: the place, the path as reported, and
whether it may be written. -/
def toWrite (t : FileTree Bytes) (relative : String) : Except Exn (Path × String × Decision) := do
  let path ← PlatformPaths.resolve t ctx.root relative
  let rel ← PlatformPaths.relativeToRoot t ctx.root path
  return (path, rel, ctx.guard.decideWrite rel)

/-- What `handle_write_file` says of a save; the file is written, whatever `git` says. -/
def written (rel : String) (content : Bytes) : Except Exn WriteFileResponse := do
  let path ← assignText host.pb rel
  let response (repo : Option RepoStatus) : WriteFileResponse :=
    { path, sha256 := host.sha256Of content, pushed := false, repo }
  match fillRepoStatus host with
  | .ok status => return response (some status)
  | .error (.repo ..) => return response none
  | .error e => throw e

theorem written_eq_ok {host : Host} {rel : String} {content : Bytes} {r : WriteFileResponse}
    (h : written host rel content = .ok r) : r.path = rel ∧ r.sha256 = host.sha256Of content := by
  obtain ⟨path, hpath, hresponse⟩ := bind_eq_ok.mp h
  obtain ⟨-, rfl⟩ := assignText_eq_ok.mp hpath
  dsimp only at hresponse
  split at hresponse <;> cases hresponse <;> exact ⟨rfl, rfl⟩

/-- The part under `TREE_LOCK`. -/
def saving (save : PlatformWrite.Save) : PlatformProc Unit := fun w =>
  match PlatformWrite.saveFile host.sha256Of save host.chances w.tree with
  | (.ok _, t) => .ok () { w with tree := t }
  | (.error e, t) => .error e { w with tree := t }

def handleWriteFile (raw : Bytes) : PlatformProc Unit := do
  let request ← decode (host.pb.writeFileRequest raw)
  let (path, rel, decision) ← reading fun t => toWrite ctx t request.path
  if !decision.allowed then reply (.err decision.reason decision.code)
  else
    saving host { path, content := request.content, baseSha256 := request.baseSha256 }
    let response ← reading fun _ => written host rel request.content
    reply (.ok (.writeFile response))

/-- `_guarded` -/
def guarded (handler : Bytes → PlatformProc Unit) (raw : Bytes) : PlatformProc Unit :=
  tryCatch (handler raw) fun
    | .path message => reply (.err message .invalidArgument)
    | .repo code message => reply (.err message code)
    | e => throw e

inductive PlatformProcedure
  | listFiles | readFile | writeFile
  deriving DecidableEq, Repr

/-- `build`, of the procedures that deal in file paths. -/
def build : PlatformProcedure → Bytes → PlatformProc Unit
  | .listFiles => guarded (handleListFiles ctx host)
  | .readFile => guarded (handleReadFile ctx host)
  | .writeFile => guarded (handleWriteFile ctx host)

end PlatformHandlers

end KeelsonDocker
