import KeelsonDocker.PlatformService
import KeelsonDocker.Verify.Replies

/-!
# One reply on every path

A handler of either interface that returns has replied exactly once, and one that raises has not replied,
whatever its calls come to; a request that the guard refuses is answered without a call
(`repliesOnce`).
-/

namespace KeelsonDocker

open Effect

variable {σ τ : Type}

/-! ### The six procedures over containers -/

section

open DockerBackend

variable {ctx : Context σ} {raw : Bytes}

theorem once_replyOk (response : Response) : Once World.replies (replyOk response : Proc σ Unit) :=
  ⟨fun h => by cases h; exact ⟨_, rfl⟩, nofun⟩

theorem once_replyErr (description : String) (code : Code) :
    Once World.replies (replyErr description code : Proc σ Unit) :=
  ⟨fun h => by cases h; exact ⟨_, rfl⟩, nofun⟩

theorem once_guarded {handler : Bytes → Proc σ Unit} (h : Once World.replies (handler raw)) :
    Once World.replies (guarded handler raw) := by
  refine .tryCatch (fun e => ?_) h
  cases e with
  | backend code message => exact once_replyErr message code
  | _ => exact .throw _

theorem once_handleList : Once World.replies (handleList ctx raw) := by
  refine .bind appends_parse fun req => ?_
  refine .bind (appends_list callsAppend_replies) fun snapshots => ?_
  refine .bind appends_timeNs fun ns => ?_
  exact .bind appends_ofExcept fun containers => once_replyOk _

theorem once_handleLogs : Once World.replies (handleLogs ctx raw) := by
  refine .bind appends_parse fun req => .bind appends_requireName fun name => ?_
  refine .bind (appends_logs callsAppend_replies) fun answer => ?_
  exact .bind appends_ofExcept fun response => once_replyOk _

theorem once_handleAction {verb : Verb} : Once World.replies (handleAction verb ctx raw) := by
  refine .bind appends_parse fun req => .bind appends_requireName fun name => ?_
  refine .ite (once_replyErr _ _) ?_
  refine .bind (appends_perform callsAppend_replies) fun snapshot => ?_
  exact .bind appends_ofExcept fun container => once_replyOk _

theorem once_handleRemove : Once World.replies (handleRemove ctx raw) := by
  refine .bind appends_parse fun req => .bind appends_requireName fun name => ?_
  refine .ite (once_replyErr _ _) ?_
  exact .bind (appends_remove callsAppend_replies) fun removed => once_replyOk _

theorem once_build (p : Procedure) : Once World.replies (build ctx p raw) := by
  cases p with
  | list => exact once_guarded once_handleList
  | logs => exact once_guarded once_handleLogs
  | start => exact once_guarded once_handleAction
  | stop => exact once_guarded once_handleAction
  | restart => exact once_guarded once_handleAction
  | remove => exact once_guarded once_handleRemove

/-- What the guard says to a change, in the handler. -/
def ControlGuard.decision (guard : ControlGuard) (m : Mutation) (name : String) : Decision :=
  match m with
  | .act verb => guard.decide name "" verb.name
  | .remove => guard.decideRemove name

theorem ControlGuard.decision_allowed (guard : ControlGuard) (m : Mutation) (name : String) :
    (guard.decision m name).allowed = guard.letsThrough m name := by
  cases m <;> rfl

/-- A request that the guard refuses gets the guard's reason, and the daemon is not asked. -/
theorem build_of_refused {m : Mutation} {name : String} {force : Bool}
    (hcarried : carried ctx.pb m raw = some (name, force)) (hname : name ≠ "")
    (hrefused : ctx.guard.letsThrough m name = false) (w : World σ) :
    build ctx m.procedure raw w =
      .ok () (w.answer (.err (ctx.guard.decision m name).reason (ctx.guard.decision m name).code)) := by
  rw [← ControlGuard.decision_allowed] at hrefused
  cases m with
  | act verb =>
    cases hreq : actionRequest ctx.pb verb raw with
    | error e => simp [carried, hreq, Except.toOption] at hcarried
    | ok req =>
      obtain ⟨rfl, rfl⟩ : req.name = name ∧ false = force := by
        simpa [carried, hreq, Except.toOption] using hcarried
      have hrun : handleAction verb ctx raw w = .ok () (w.answer
          (.err (ctx.guard.decision (.act verb) req.name).reason
            (ctx.guard.decision (.act verb) req.name).code)) := by
        have hdecision : (ctx.guard.decide req.name "" verb.name).allowed = false := hrefused
        rw [handleAction_of_decoded hreq hname]
        simp only [hdecision, Bool.not_false, if_true]
        rfl
      cases verb <;> exact run_tryCatch_ok hrun
  | remove =>
    cases hreq : ctx.pb.removeContainerRequest raw with
    | error e => simp [carried, hreq, Except.toOption] at hcarried
    | ok req =>
      obtain ⟨rfl, rfl⟩ : req.name = name ∧ req.force = force := by
        simpa [carried, hreq, Except.toOption] using hcarried
      have hrun : handleRemove ctx raw w = .ok () (w.answer
          (.err (ctx.guard.decision .remove req.name).reason
            (ctx.guard.decision .remove req.name).code)) := by
        have hdecision : (ctx.guard.decideRemove req.name).allowed = false := hrefused
        rw [handleRemove_of_decoded hreq hname]
        simp only [hdecision, Bool.not_false, if_true]
        rfl
      exact run_tryCatch_ok hrun

end

/-! ### The seven procedures over files -/

namespace PlatformService

open FileSystem

variable {α : Type} {context : PlatformContext} {pb : PlatformProtobuf} {sha256Of : Bytes → String}
  {calls : Calls (EStateM Exn τ)} {raw : Bytes}

theorem silent_outside (x : EStateM Exn τ α) : Silent World.replies (outside x) := by
  refine .nothing fun w => ?_
  cases h : x w.system with
  | ok a system =>
    have hrun : outside x w = .ok a { w with system } := by simp [outside, h]
    rw [after_ok hrun]
  | error e system =>
    have hrun : outside x w = .error e { w with system } := by simp [outside, h]
    rw [after_error hrun]

theorem silent_lift (x : Except Exn α) :
    Silent World.replies (lift x : EStateM Exn (World τ) α) := by
  cases x with
  | ok a => exact .pure a
  | error e => exact .throw e

theorem silent_decode (decoded : Except String α) :
    Silent World.replies (decode decoded : EStateM Exn (World τ) α) := by
  cases decoded with
  | ok request => exact .pure request
  | error exc => exact .throw _

theorem silent_fillRepoStatus : Silent World.replies (fillRepoStatus (calls.map outside)) := by
  refine .bind (silent_outside _) fun state _ _ _ => ?_
  refine .bind (silent_lift _) fun ahead _ _ _ => .bind (silent_lift _) fun behind _ _ _ => ?_
  exact .bind (silent_outside _) fun lastFetchAt _ _ _ => .pure _

theorem silent_bestEffortStatus : Silent World.replies (bestEffortStatus (calls.map outside)) := by
  refine .tryCatch (fun e => ?_) (.bind silent_fillRepoStatus fun status _ _ _ => .pure _)
  cases e with
  | repo code message => exact .pure none
  | _ => exact .throw _

theorem silent_fileInfo (dirty : List String) (path : Path) :
    Silent World.replies (fileInfo (responder context pb sha256Of calls) dirty path) := by
  refine .bind (silent_outside _) fun rel _ _ _ => .bind (silent_outside _) fun size _ _ _ => ?_
  refine .bind (silent_lift _) fun name _ _ _ => .bind (silent_lift _) fun relativePath _ _ _ => ?_
  exact .bind (silent_outside _) fun modifiedAt _ _ _ => .pure _

theorem silent_entityInfo (dirty : List String) (name : String) :
    Silent World.replies (entityInfo (responder context pb sha256Of calls) dirty name) := by
  refine .bind (silent_outside _) fun files _ _ _ => .bind (silent_outside _) fun rel _ _ _ => ?_
  refine .bind (silent_lift _) fun name _ _ _ => .bind (silent_lift _) fun relativePath _ _ _ => ?_
  refine .bind (silent_lift _) fun count _ _ _ => .bind (silent_outside _) fun services _ _ _ => ?_
  cases services with
  | none => exact .pure _
  | some services => exact .bind (silent_lift _) fun count _ _ _ => .pure _

theorem once_reply (r : Reply) :
    Once World.replies ((responder context pb sha256Of calls).reply r) :=
  ⟨fun h => by cases h; exact ⟨_, rfl⟩, nofun⟩

theorem once_guarded {handler : Bytes → EStateM Exn (World τ) Unit}
    (h : Once World.replies (handler raw)) :
    Once World.replies (guarded (responder context pb sha256Of calls) handler raw) := by
  refine .tryCatch (fun e => ?_) h
  cases e with
  | path message => exact once_reply _
  | repo code message => exact once_reply _
  | _ => exact .throw _

theorem once_handleListEntities :
    Once World.replies (handleListEntities (responder context pb sha256Of calls) raw) := by
  refine .bind silent_bestEffortStatus fun repo => .bind (silent_outside _) fun observedAt => ?_
  refine .bind (silent_outside _) fun names => ?_
  exact .bind (Silent.mapM (silent_entityInfo _) names) fun entities => once_reply _

theorem once_handleListFiles :
    Once World.replies (handleListFiles (responder context pb sha256Of calls) raw) := by
  refine .bind (silent_decode _) fun request => ?_
  refine .ite (.bind (.throw _) fun _ => ?_) ?_
  all_goals
    refine .ite (.bind (.throw _) fun _ => ?_) ?_
    all_goals
      refine .bind (silent_outside _) fun state => .bind (silent_outside _) fun observedAt => ?_
      refine .bind (silent_outside _) fun paths => ?_
      exact .bind (Silent.mapM (silent_fileInfo _) paths) fun files => once_reply _

theorem once_handleReadFile :
    Once World.replies (handleReadFile (responder context pb sha256Of calls) raw) := by
  refine .bind (silent_decode _) fun request => .bind (silent_outside _) fun path => ?_
  refine .bind (silent_outside _) fun rel => .bind (silent_outside _) fun read => ?_
  refine .bind (silent_outside _) fun size => .bind (silent_lift _) fun reported => ?_
  exact .bind (silent_outside _) fun modifiedAt => once_reply _

theorem once_handleWriteFile :
    Once World.replies (handleWriteFile (responder context pb sha256Of calls) raw) := by
  refine .bind (silent_decode _) fun request => .bind (silent_outside _) fun path => ?_
  refine .bind (silent_outside _) fun rel => .ite (once_reply _) ?_
  refine .bind (silent_outside _) fun _ => .bind (silent_outside _) fun _ => ?_
  exact .bind (silent_lift _) fun reported => .bind silent_bestEffortStatus fun repo => once_reply _

theorem once_build (p : Procedure) :
    Once World.replies (build (responder context pb sha256Of calls) p raw) := by
  cases p with
  | listEntities => exact once_guarded once_handleListEntities
  | listFiles => exact once_guarded once_handleListFiles
  | readFile => exact once_guarded once_handleReadFile
  | repoStatus => exact once_guarded (.bind silent_fillRepoStatus fun status => once_reply _)
  | writeFile => exact once_guarded once_handleWriteFile
  | deleteFile => exact once_guarded (.throw _)
  | sync => exact once_guarded (.throw _)

end PlatformService

/-! ### Both interfaces -/

/-- The reply discipline of a responder. -/
structure RepliesOnce (ctx : Context σ)
    (service : PlatformService.Service (EStateM Exn (PlatformService.World τ))) : Prop where
  /-- One reply of a handler that returns, none of one that raises. -/
  container : ∀ p raw, Once World.replies (build ctx p raw)
  platform : ∀ p raw, Once PlatformService.World.replies (PlatformService.build service p raw)
  /-- What the guard refuses is answered without a call to the daemon. -/
  refused : ∀ m raw name force, carried ctx.pb m raw = some (name, force) → name ≠ "" →
    ctx.guard.letsThrough m name = false → ∀ w, ∃ description code w',
      build ctx m.procedure raw w = .ok () w' ∧ w'.replies = w.replies ++ [.err description code] ∧
        w'.calls = w.calls

/-- **One reply on every path**, whatever the daemon, the file system and `git` come to. -/
theorem repliesOnce (ctx : Context σ) (context : PlatformContext) (pb : PlatformProtobuf)
    (sha256Of : Bytes → String) (calls : PlatformService.Calls (EStateM Exn τ)) :
    RepliesOnce ctx (PlatformService.responder context pb sha256Of calls) where
  container p _ := once_build p
  platform p _ := PlatformService.once_build p
  refused _ _ _ _ hcarried hname hrefused w :=
    ⟨_, _, _, build_of_refused hcarried hname hrefused w, rfl, rfl⟩

end KeelsonDocker
