import KeelsonDocker.PlatformService
import KeelsonDocker.Verify.SaveStages

/-!
# The handlers on a tree are the handlers

With calls that look at a tree and change it, the procedures of `PlatformService.lean` are those of
`PlatformHandlers.lean` and `PlatformEntities.lean`, but for the time at which a list was observed
(`build_onTree`, `handleListEntities_onTree`).
-/

namespace KeelsonDocker.PlatformService

open Effect FileSystem PlatformHandlers

variable {α β : Type}

/-! ### Reading in steps and in one go -/

theorem reading_bind (f : FileTree Bytes → Except Exn α) (g : α → FileTree Bytes → Except Exn β) :
    reading (fun t => f t >>= fun a => g a t) = reading f >>= fun a => reading (g a) := by
  funext w
  cases h : f w.tree with
  | ok a =>
    have hf : reading f w = .ok a w := reading_eq_ok.mpr ⟨h, rfl⟩
    rw [run_bind_ok hf]
    simp [reading, h, bind, Except.bind]
  | error e =>
    have hf : reading f w = .error e w := by simp [reading, h]
    rw [run_bind_error hf]
    simp [reading, h, bind, Except.bind]

theorem reading_pure (a : α) : reading (fun _ => pure a) = (pure a : PlatformProc α) := rfl

theorem reading_lift (x : Except Exn α) : reading (fun _ => x) = lift x := by
  cases x <;> rfl

theorem reading_mapM (f : α → FileTree Bytes → Except Exn β) (as : List α) :
    reading (fun t => as.mapM fun a => f a t) = as.mapM fun a => reading (f a) := by
  induction as with
  | nil => rfl
  | cons a as ih =>
    simp only [List.mapM_cons]
    rw [reading_bind, ← ih]
    refine congrArg (bind _) (funext fun b => ?_)
    rw [reading_bind]
    rfl

theorem decode_eq (decoded : Except String α) :
    (decode decoded : PlatformProc α) = PlatformHandlers.decode decoded := by
  cases decoded <;> rfl

/-! ### The calls on a tree -/

variable {κ : Type} [DecidableEq κ] (ctx : PlatformContext) (host : Host) (L : Yaml.Library κ)
  (now : Timestamp)

/-- `atomic_write` of a save: the stages that follow the check. -/
def writing (path : Path) (content : Bytes) : PlatformProc Unit := fun w =>
  match PlatformWrite.run host.sha256Of { path, content, baseSha256 := "" } host.chances
      PlatformWrite.Stage.preparing.left 1 .preparing w.tree with
  | (.ended (.ok _), t) => .ok () { w with tree := t }
  | (.ended (.error e), t) => .error e { w with tree := t }
  | (_, t) => .error (.other "a stage is left") { w with tree := t }

def onTree : Calls PlatformProc where
  now := pure now
  resolve relative mustBeFile := reading fun t => PlatformPaths.resolve t ctx.root relative mustBeFile
  relative path := reading fun t => PlatformPaths.relativeToRoot t ctx.root path
  readState := reading fun _ => PlatformRepo.readState host.git
  lastFetchAt := reading fun _ => PlatformRepo.lastFetchAt host.fetchHead
  listEntityNames := reading fun t => PlatformRepo.listEntityNames t ctx.root
  listEntityFiles entity := reading fun t => PlatformRepo.listEntityFiles t ctx.root entity
  countServices files := reading fun t => PlatformRepo.countServices L t files
  readBytes path := reading fun t => PlatformRepo.readBytes t path
  statSize path := reading fun t => PlatformRepo.statSize t path
  modifiedAt path := reading fun _ => PlatformRepo.modifiedAt (host.mtime path)
  checkBaseSha path baseSha256 := do
    let _ ← reading fun t => PlatformWrite.checkBaseSha host.sha256Of t path baseSha256
    return ()
  atomicWrite path content := writing host path content

/-- A reply without the time at which it was observed. -/
def Reply.untimed : Reply → Option PlatformReply
  | .err description code => some (.err description code)
  | .ok (.listFiles r) => some (.ok (.listFiles r.toListFilesResponse))
  | .ok (.readFile r) => some (.ok (.readFile r))
  | .ok (.writeFile r) => some (.ok (.writeFile r))
  | .ok (.listEntities _) | .ok (.repoStatus _) => none

/-- A responder whose replies go where those of `PlatformHandlers.build` go. -/
def serviceOnTree : Service PlatformProc where
  context := ctx
  pb := host.pb
  sha256Of := host.sha256Of
  calls := onTree ctx host L now
  reply r :=
    match r.untimed with
    | some r => PlatformHandlers.reply r
    | none => pure ()

variable {ctx host L now} {raw : Bytes}

theorem handleReadFile_onTree :
    handleReadFile (serviceOnTree ctx host L now) raw = PlatformHandlers.handleReadFile ctx host raw := by
  unfold handleReadFile PlatformHandlers.handleReadFile
  rw [decode_eq]
  refine congrArg (bind _) (funext fun request => ?_)
  unfold PlatformHandlers.readReply PlatformHandlers.contentsAt
  rw [reading_bind, bind_assoc]
  refine congrArg (bind _) (funext fun path => ?_)
  rw [reading_bind, reading_bind, bind_assoc, bind_assoc]
  refine congrArg (bind _) (funext fun rel => ?_)
  rw [reading_bind, bind_assoc]
  refine congrArg (bind _) (funext fun read => ?_)
  rw [reading_bind, bind_assoc]
  refine congrArg (bind _) (funext fun sizeBytes => ?_)
  rw [reading_pure, pure_bind]
  unfold PlatformHandlers.dated
  rw [reading_bind, bind_assoc, reading_lift]
  refine congrArg (bind _) (funext fun reported => ?_)
  rw [reading_bind, bind_assoc]
  rfl

/-! ### The state of the repository -/

theorem lift_bind (x : Except Exn α) (f : α → Except Exn β) :
    (lift (x >>= f) : PlatformProc β) = lift x >>= fun a => lift (f a) := by
  cases x <;> rfl

theorem fillRepoStatus_onTree :
    fillRepoStatus (onTree ctx host L now) = lift (PlatformHandlers.fillRepoStatus host) := by
  unfold fillRepoStatus PlatformHandlers.fillRepoStatus
  rw [lift_bind, ← reading_lift]
  refine congrArg (bind _) (funext fun state => ?_)
  rw [lift_bind]
  refine congrArg (bind _) (funext fun ahead => ?_)
  rw [lift_bind]
  refine congrArg (bind _) (funext fun behind => ?_)
  rw [lift_bind, ← reading_lift]
  rfl

theorem bestEffortStatus_onTree : bestEffortStatus (onTree ctx host L now) = (do
    let (repo, _) ← lift (repoStatus host)
    return repo) := by
  unfold bestEffortStatus repoStatus
  rw [fillRepoStatus_onTree]
  cases PlatformHandlers.fillRepoStatus host with
  | ok status => rfl
  | error e => cases e <;> rfl

/-! ### The other handlers -/

variable (ctx host L now) in
theorem fileInfo_onTree (dirty : List String) (path : Path) :
    fileInfo (serviceOnTree ctx host L now) dirty path =
      reading fun t => PlatformHandlers.fileInfo ctx host t path dirty := by
  unfold fileInfo PlatformHandlers.fileInfo
  rw [reading_bind]
  refine congrArg (bind _) (funext fun rel => ?_)
  rw [reading_bind]
  refine congrArg (bind _) (funext fun sizeBytes => ?_)
  rw [reading_bind, reading_lift]
  refine congrArg (bind _) (funext fun name => ?_)
  rw [reading_bind, reading_lift]
  refine congrArg (bind _) (funext fun relativePath => ?_)
  rw [reading_bind]
  rfl

theorem handleListFiles_onTree :
    handleListFiles (serviceOnTree ctx host L now) raw = PlatformHandlers.handleListFiles ctx host raw := by
  have hlisting (entity : String) : (do
      let state ← (onTree ctx host L now).readState
      let observedAt ← (onTree ctx host L now).now
      let paths ← (onTree ctx host L now).listEntityFiles entity
      let files ← paths.mapM (fileInfo (serviceOnTree ctx host L now) state.dirtyPaths)
      (serviceOnTree ctx host L now).reply (.ok (.listFiles { entity, files, observedAt })) :
        PlatformProc Unit) =
      (do
        let response ← reading fun t => PlatformHandlers.listing ctx host t entity
        PlatformHandlers.reply (.ok (.listFiles response))) := by
    unfold PlatformHandlers.listing
    rw [reading_bind, bind_assoc]
    refine congrArg (bind _) (funext fun state => ?_)
    have hnow : (onTree ctx host L now).now = pure now := rfl
    rw [reading_bind, bind_assoc, hnow, pure_bind]
    refine congrArg (bind _) (funext fun paths => ?_)
    rw [reading_bind, bind_assoc, reading_mapM]
    simp only [← fileInfo_onTree ctx host L now]
    rfl
  unfold handleListFiles PlatformHandlers.handleListFiles
  rw [decode_eq]
  refine congrArg (bind _) (funext fun request => ?_)
  rw [← hlisting]
  rfl

/-! ### A save in two calls -/

section

variable {sha256Of : Bytes → String} {path : Path} {content : Bytes} (base base' : String)

/-- Past the check, a save no longer looks at the base. -/
theorem advance_base (chance : PlatformWrite.Chance) (stage : PlatformWrite.Stage) (t : FileTree Bytes)
    (h : stage.left ≤ PlatformWrite.Stage.preparing.left) :
    PlatformWrite.advance sha256Of { path, content, baseSha256 := base } chance stage t =
      PlatformWrite.advance sha256Of { path, content, baseSha256 := base' } chance stage t := by
  cases stage with
  | checking => exact absurd h (by decide)
  | creating mode tries => cases tries <;> rfl
  | _ => rfl

theorem run_base (chances : Nat → PlatformWrite.Chance) (left i : Nat) (stage : PlatformWrite.Stage)
    (t : FileTree Bytes) (h : stage.left ≤ PlatformWrite.Stage.preparing.left) :
    PlatformWrite.run sha256Of { path, content, baseSha256 := base } chances left i stage t =
      PlatformWrite.run sha256Of { path, content, baseSha256 := base' } chances left i stage t := by
  induction left generalizing i stage t with
  | zero => rfl
  | succ left ih =>
    have hstep : PlatformWrite.advance sha256Of { path, content, baseSha256 := base } (chances i) stage
        t = _ := advance_base base base' (chances i) stage t h
    have hnext (hgo : ∀ result, stage ≠ .ended result) :
        (PlatformWrite.advance sha256Of { path, content, baseSha256 := base' } (chances i) stage
          t).1.left ≤ PlatformWrite.Stage.preparing.left :=
      (PlatformWrite.advance_left sha256Of _ (chances i) t hgo).le.trans h
    cases stage with
    | ended result => rfl
    | _ =>
      unfold PlatformWrite.run
      rw [hstep]
      exact ih (i + 1) _ _ (hnext nofun)

end

theorem run_checking {sha256Of : Bytes → String} {save : PlatformWrite.Save}
    (chances : Nat → PlatformWrite.Chance) (left : Nat) (t : FileTree Bytes) :
    PlatformWrite.run sha256Of save chances (left + 1) 0 .checking t =
      PlatformWrite.run sha256Of save chances left 1
        (PlatformWrite.advance sha256Of save (chances 0) .checking t).1
        (PlatformWrite.advance sha256Of save (chances 0) .checking t).2 := rfl

theorem run_of_ended {sha256Of : Bytes → String} {save : PlatformWrite.Save}
    (chances : Nat → PlatformWrite.Chance) (left i : Nat) (result : Except Exn Unit)
    (t : FileTree Bytes) :
    PlatformWrite.run sha256Of save chances left i (.ended result) t = (.ended result, t) := by
  cases left <;> rfl

variable (ctx host L now) in
theorem saving_eq (path : Path) (content : Bytes) (base : String) :
    (do
      (onTree ctx host L now).checkBaseSha path base
      (onTree ctx host L now).atomicWrite path content) =
      saving host { path, content, baseSha256 := base } := by
  have hleft : PlatformWrite.Stage.checking.left = PlatformWrite.Stage.preparing.left + 1 := by
    simp only [PlatformWrite.Stage.left]
  funext w
  have hrun (left : Nat) : PlatformWrite.run host.sha256Of { path, content, baseSha256 := "" }
      host.chances left 1 .preparing w.tree =
        PlatformWrite.run host.sha256Of { path, content, baseSha256 := base } host.chances left 1
          .preparing w.tree :=
    run_base "" base host.chances left 1 .preparing w.tree (Nat.le_refl _)
  have hwrite : (onTree ctx host L now).atomicWrite path content = writing host path content := rfl
  -- The number of stages is large: it is kept out of the way of every unfolding.
  generalize hn : PlatformWrite.Stage.preparing.left = left at hleft
  unfold saving PlatformWrite.saveFile
  rw [hleft, run_checking]
  simp only [PlatformWrite.advance]
  cases hcheck : PlatformWrite.checkBaseSha host.sha256Of w.tree path base with
  | error e =>
    have hread : (onTree ctx host L now).checkBaseSha path base w = .error e w := by
      refine run_bind_error (x := reading _) ?_
      simp [reading, hcheck]
    apply (run_bind_error hread).trans
    simp only [run_of_ended]
  | ok current =>
    have hread : (onTree ctx host L now).checkBaseSha path base w = .ok () w :=
      (run_bind_ok (reading_eq_ok.mpr ⟨hcheck, rfl⟩)).trans rfl
    apply (run_bind_ok hread).trans
    rw [hwrite]
    unfold writing
    rw [hn, hrun]
    simp only
    generalize PlatformWrite.run host.sha256Of _ host.chances left 1 .preparing w.tree = ended
    obtain ⟨stage, t⟩ := ended
    cases stage with
    | ended result => cases result <;> rfl
    | _ => rfl

/-- The reply after a save. -/
theorem reply_written (rel : String) (content : Bytes) : (do
    let reported ← lift (assignText host.pb rel)
    let repo ← bestEffortStatus (onTree ctx host L now)
    (serviceOnTree ctx host L now).reply (.ok (.writeFile
      { path := reported, sha256 := host.sha256Of content, pushed := false, repo })) : PlatformProc Unit) =
    (do
      let response ← reading fun _ => written host rel content
      PlatformHandlers.reply (.ok (.writeFile response))) := by
  unfold written
  rw [reading_bind, bind_assoc, reading_lift]
  refine congrArg (bind _) (funext fun reported => ?_)
  rw [bestEffortStatus_onTree, reading_lift]
  unfold repoStatus
  cases PlatformHandlers.fillRepoStatus host with
  | ok status => rfl
  | error e => cases e <;> rfl

theorem handleWriteFile_onTree : handleWriteFile (serviceOnTree ctx host L now) raw =
    PlatformHandlers.handleWriteFile ctx host raw := by
  unfold handleWriteFile PlatformHandlers.handleWriteFile
  rw [decode_eq]
  refine congrArg (bind _) (funext fun request => ?_)
  unfold PlatformHandlers.toWrite
  rw [reading_bind, bind_assoc]
  refine congrArg (bind _) (funext fun path => ?_)
  rw [reading_bind, bind_assoc]
  refine congrArg (bind _) (funext fun rel => ?_)
  rw [reading_pure, pure_bind]
  apply congrArg (ite _ _)
  rw [← saving_eq ctx host L now, bind_assoc]
  refine congrArg (bind _) (funext fun _ => congrArg (bind _) (funext fun _ => ?_))
  exact reply_written rel request.content

/-- **The handlers on a tree** are those of `PlatformHandlers.build`. -/
theorem build_onTree :
    build (serviceOnTree ctx host L now) .listFiles = PlatformHandlers.build ctx host .listFiles ∧
      build (serviceOnTree ctx host L now) .readFile = PlatformHandlers.build ctx host .readFile ∧
      build (serviceOnTree ctx host L now) .writeFile = PlatformHandlers.build ctx host .writeFile := by
  have hguarded {handler handler' : Bytes → PlatformProc Unit} (h : ∀ raw, handler raw = handler' raw) :
      guarded (serviceOnTree ctx host L now) handler = PlatformHandlers.guarded handler' := by
    funext raw
    unfold guarded PlatformHandlers.guarded
    rw [h]
    refine congrArg (tryCatch _) (funext fun e => ?_)
    cases e <;> rfl
  exact ⟨hguarded fun _ => handleListFiles_onTree, hguarded fun _ => handleReadFile_onTree,
    hguarded fun _ => handleWriteFile_onTree⟩

/-! ### The list of entities -/

variable (ctx host L now) in
theorem entityInfo_onTree (dirty : List String) (name : String) :
    entityInfo (serviceOnTree ctx host L now) dirty name =
      reading fun t =>
        PlatformHandlers.entityInfo ctx host t (PlatformRepo.countServices L t) dirty name := by
  unfold entityInfo PlatformHandlers.entityInfo
  rw [reading_bind]
  refine congrArg (bind _) (funext fun files => ?_)
  rw [reading_bind]
  refine congrArg (bind _) (funext fun rel => ?_)
  rw [reading_bind, reading_lift]
  refine congrArg (bind _) (funext fun name => ?_)
  rw [reading_bind, reading_lift]
  refine congrArg (bind _) (funext fun relativePath => ?_)
  rw [reading_bind, reading_lift]
  refine congrArg (bind _) (funext fun fileCount => ?_)
  rw [reading_bind]
  refine congrArg (bind _) (funext fun services => ?_)
  cases services with
  | none => rfl
  | some services =>
    dsimp only
    rw [reading_bind, reading_lift]
    rfl

/-- `handle_list_entities` replies with what `PlatformHandlers.listEntities` finds. -/
theorem handleListEntities_onTree : handleListEntities (serviceOnTree ctx host L now) raw = (do
    let r ← reading fun t => PlatformHandlers.listEntities ctx host t L
    (serviceOnTree ctx host L now).reply (.ok (.listEntities { r with observedAt := now }))) := by
  have hdirty : repoStatus host = repoStatus host >>= fun found =>
      pure (found.1, (found.1.map (·.dirtyPaths)).getD []) := by
    unfold repoStatus
    cases PlatformHandlers.fillRepoStatus host with
    | ok status => rfl
    | error e => cases e <;> rfl
  unfold handleListEntities PlatformHandlers.listEntities PlatformHandlers.entitiesWith
  rw [hdirty]
  simp only [bind_assoc, pure_bind]
  rw [reading_bind, bind_assoc, reading_lift]
  have hstatus : bestEffortStatus (serviceOnTree ctx host L now).calls = _ := bestEffortStatus_onTree
  rw [hstatus, bind_assoc]
  refine congrArg (bind _) (funext fun found => ?_)
  have hnow : (serviceOnTree ctx host L now).calls.now = pure now := rfl
  rw [reading_bind, bind_assoc, pure_bind, hnow, pure_bind]
  refine congrArg (bind _) (funext fun names => ?_)
  rw [reading_bind, bind_assoc, reading_mapM]
  simp only [← entityInfo_onTree ctx host L now]
  rfl

end KeelsonDocker.PlatformService
