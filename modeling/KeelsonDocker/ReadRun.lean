import KeelsonDocker.WriteRun

/-!
# `read_file` beside `write_file`

A read takes no lock. It looks at the tree one `lstat` after another up to the path, then reads the file,
then asks for its size, each time on the tree as it is by then.
-/

namespace KeelsonDocker

open FileSystem

namespace ReadRun

/-- Where a read request stands. -/
inductive Phase
  | arrived
  /-- `root.resolve()` -/
  | rooting (parts : List String) (r : Resolving)
  /-- `(root_real / relative).resolve()` -/
  | placing (rootReal : Path) (r : Resolving)
  /-- `candidate.is_file()` -/
  | checking (path : Path)
  /-- `path.resolve()` in `relative_to_root`. -/
  | relating (path : Path) (r : Resolving)
  /-- `root.resolve()` there. -/
  | rerooting (path real : Path) (r : Resolving)
  /-- `repo.read_bytes(path)` -/
  | reading (path : Path) (rel : String)
  /-- `path.stat()`, and the time, which the tree says nothing of. -/
  | sizing (path : Path) (rel : String) (content : Bytes) (truncated : Bool)
  | answered (path : Path) (response : ReadFileResponse)
  /-- Over without the reply that was asked for. -/
  | refused (outcome : Except Exn PlatformReply)

variable (ctx : PlatformContext) (host : Host)

/-- The next thing a read does, on the tree as it is. -/
def look (raw : Bytes) (t : FileTree Bytes) : Phase → Phase
  | .arrived =>
    match host.pb.readFileRequest raw with
    | .error exc => .refused (.error (.other exc))
    | .ok request =>
      match PlatformPaths.checkShape request.path with
      | .error e => .refused (WriteRun.caught e)
      | .ok parts => .rooting parts (.start ctx.root)
  | .rooting parts r =>
    match r.step fun _ => t.lstat with
    | some r => .rooting parts r
    | none => .placing r.path (.start (r.path ++ parts))
  | .placing rootReal r =>
    match r.step fun _ => t.lstat with
    | some r => .placing rootReal r
    | none =>
      match PlatformPaths.checkPlace rootReal r.path with
      | .error e => .refused (WriteRun.caught e)
      | .ok _ => .checking r.path
  | .checking path =>
    match PlatformPaths.checkFile t path true with
    | .error e => .refused (WriteRun.caught e)
    | .ok _ => .relating path (.start path)
  | .relating path r =>
    match r.step fun _ => t.lstat with
    | some r => .relating path r
    | none => .rerooting path r.path (.start ctx.root)
  | .rerooting path real r =>
    match r.step fun _ => t.lstat with
    | some r => .rerooting path real r
    | none =>
      match PlatformPaths.relativeTo r.path real with
      | .error e => .refused (WriteRun.caught e)
      | .ok rel => .reading path rel
  | .reading path rel =>
    match PlatformRepo.readBytes t path with
    | .error e => .refused (WriteRun.caught e)
    | .ok (content, truncated) => .sizing path rel content truncated
  | .sizing path rel content truncated =>
    match PlatformRepo.statSize t path with
    | .error e => .refused (WriteRun.caught e)
    | .ok sizeBytes =>
      match PlatformHandlers.dated host path
        { path := rel, content, sha256 := host.sha256Of content, sizeBytes
          writable := ctx.guard.writable rel, truncated } with
      | .error e => .refused (WriteRun.caught e)
      | .ok response => .answered path response
  | phase => phase

/-- Writers `ι` and readers `κ`, each with the bytes of its request. The times of files change as they
like. -/
def program {ι κ : Type} (writes : ι → Bytes) (reads : κ → Bytes) :
    Critical.Program (ι ⊕ κ) (FileTree Bytes) (WriteRun.Phase ⊕ Phase) WriteRun.Saving :=
  (WriteRun.program ctx host writes).beside fun k t phase phase' =>
    ∃ mtime, phase' = look ctx { host with mtime } (reads k) t phase

/-- All requests have arrived. -/
def start {ι κ : Type} (t : FileTree Bytes) :
    Critical.State (ι ⊕ κ) (FileTree Bytes) (WriteRun.Phase ⊕ Phase) WriteRun.Saving where
  shared := t
  locals := Sum.map (fun _ => .arrived) fun _ => .arrived

end ReadRun

end KeelsonDocker
