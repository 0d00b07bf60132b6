import KeelsonDocker.PlatformHandlers
import KeelsonDocker.Theory.Critical
import Mathlib.Logic.Function.Iterate

/-!
# `write_file` in several threads

Every request is served by a thread of its own. Up to the lock, `handle_write_file` looks at the tree one
`lstat` after another, each time at the tree as it is by then; under the lock, a save goes stage by stage,
each as chance has it. What `git` says afterwards may be anything, and so may the time of the last fetch.
-/

namespace KeelsonDocker

open FileSystem

namespace WriteRun

/-- Where a request stands outside the lock. -/
inductive Phase
  | arrived
  /-- `root.resolve()` -/
  | rooting (request : WriteFileRequest) (parts : List String) (r : Resolving)
  /-- `(root_real / relative).resolve()` -/
  | placing (request : WriteFileRequest) (rootReal : Path) (r : Resolving)
  /-- `path.resolve()` in `relative_to_root`. -/
  | relating (request : WriteFileRequest) (path : Path) (r : Resolving)
  /-- `root.resolve()` there. -/
  | rerooting (request : WriteFileRequest) (path real : Path) (r : Resolving)
  /-- Allowed, with the lock to be taken next. -/
  | waiting (save : PlatformWrite.Save) (rel : String)
  /-- Over before the lock was taken. -/
  | refused (outcome : Except Exn PlatformReply)
  /-- Over after it was released. -/
  | ended (outcome : Except Exn PlatformReply)

/-- A request under the lock. -/
structure Saving where
  save : PlatformWrite.Save
  rel : String
  stage : PlatformWrite.Stage

/-- What `_guarded` makes of an exception: a reply, or that very exception. -/
def caught : Exn → Except Exn PlatformReply
  | .path message => .ok (.err message .invalidArgument)
  | .repo code message => .ok (.err message code)
  | e => .error e

/-- What comes of a request once its save has ended. -/
def outcome (host : Host) (rel : String) (content : Bytes) : Except Exn Unit → Except Exn PlatformReply
  | .ok _ =>
    match PlatformHandlers.written host rel content with
    | .ok response => .ok (.ok (.writeFile response))
    | .error e => caught e
  | .error e => caught e

variable (ctx : PlatformContext) (host : Host)

/-- `ctx.guard.decide_write(rel)`, and what follows from it. -/
def decided (request : WriteFileRequest) (path : Path) (rel : String) : Phase :=
  let decision := ctx.guard.decideWrite rel
  if !decision.allowed then .refused (.ok (.err decision.reason decision.code))
  else .waiting { path, content := request.content, baseSha256 := request.baseSha256 } rel

/-- The next thing a thread does outside the lock, on the tree as it is: a round of following links, or
what comes after the last. -/
def look (raw : Bytes) (t : FileTree Bytes) : Phase → Phase
  | .arrived =>
    match host.pb.writeFileRequest raw with
    | .error exc => .refused (.error (.other exc))
    | .ok request =>
      match PlatformPaths.checkShape request.path with
      | .error e => .refused (caught e)
      | .ok parts => .rooting request parts (.start ctx.root)
  | .rooting request parts r =>
    match r.step fun _ => t.lstat with
    | some r => .rooting request parts r
    | none => .placing request r.path (.start (r.path ++ parts))
  | .placing request rootReal r =>
    match r.step fun _ => t.lstat with
    | some r => .placing request rootReal r
    | none =>
      match PlatformPaths.checkPlace rootReal r.path with
      | .error e => .refused (caught e)
      | .ok _ => .relating request r.path (.start r.path)
  | .relating request path r =>
    match r.step fun _ => t.lstat with
    | some r => .relating request path r
    | none => .rerooting request path r.path (.start ctx.root)
  | .rerooting request path real r =>
    match r.step fun _ => t.lstat with
    | some r => .rerooting request path real r
    | none =>
      match PlatformPaths.relativeTo r.path real with
      | .error e => .refused (caught e)
      | .ok rel => decided ctx request path rel
  | phase => phase

/-- One stage of a save. -/
def carry (chance : PlatformWrite.Chance) (saving : Saving) (t : FileTree Bytes) :
    Saving × FileTree Bytes :=
  let (stage, t) := PlatformWrite.advance host.sha256Of saving.save chance saving.stage t
  ({ saving with stage }, t)

/-- The threads `ι`, each with the bytes of its request. -/
def program {ι : Type} (raws : ι → Bytes) : Critical.Program ι (FileTree Bytes) Phase Saving where
  roam i t phase phase' := phase' = look ctx host (raws i) t phase
  enter _ phase saving := ∃ save rel, phase = .waiting save rel ∧ saving = ⟨save, rel, .checking⟩
  work _ saving t saving' t' := ∃ chance, (saving', t') = carry host chance saving t
  leave _ saving phase := ∃ result git fetchHead, saving.stage = .ended result ∧
    phase = .ended (outcome { host with git, fetchHead } saving.rel saving.save.content result)

/-- All requests have arrived, nothing has been looked at. -/
def start {ι : Type} (t : FileTree Bytes) : Critical.State ι (FileTree Bytes) Phase Saving where
  shared := t
  locals _ := .arrived

end WriteRun

end KeelsonDocker
