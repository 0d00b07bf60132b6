import KeelsonDocker.StatusPublisher
import KeelsonDocker.Verify.Mutations

/-!
# What the replies describe

Every container a list reply, an action reply or a status message describes is the description
(`info`) of a snapshot under the responder's guard (`Reported.exists_snapshot`).
-/

namespace KeelsonDocker

open Effect

variable {σ : Type}

/-- The replies to a request, from a daemon's state. -/
def replies (ctx : Context σ) (p : Procedure) (raw : Bytes) (d : σ) (t : Int) : List Reply :=
  (after (build ctx p raw) { daemon := d, timeNs := t }).replies

/-! ### What a fallible step yields -/

/-- What holds of the result, whenever there is one. -/
def Yields (P : α → Prop) (x : Except ε α) : Prop := ∀ a, x = .ok a → P a

theorem Yields.pure {P : α → Prop} {a : α} (h : P a) :
    Yields P (Pure.pure a : Except ε α) := by
  rintro _ ⟨⟩
  exact h

theorem Yields.bind {P : β → Prop} {x : Except ε α} {f : α → Except ε β}
    (h : ∀ a, Yields P (f a)) : Yields P (x >>= f) := fun b hb =>
  have ⟨a, _, ha⟩ := bind_eq_ok.mp hb
  h a b ha

/-- The description carries the snapshot's name and id and the flags it was given. -/
theorem buildContainerInfo_yields (pb : Protobuf) (s : ContainerSnapshot) (a b : Bool) :
    Yields (fun i => i.name = s.name ∧ i.id = s.id ∧ i.controllable = a ∧ i.removable = b)
      (buildContainerInfo pb s a b) := by
  unfold buildContainerInfo
  repeat refine .bind fun _ => ?_
  exact .pure ⟨rfl, rfl, rfl, rfl⟩

/-! ### What the backend leaves alone -/

namespace DockerBackend

variable {E : Engine σ} {view : World σ → List τ} {P : τ → Prop}

/-- What every call to the daemon appends is all that the backend's procedures append. -/
def CallsAppend (view : World σ → List τ) (P : τ → Prop) : Prop :=
  ∀ ⦃α⦄ (c : Call) (f : σ → Except Exn α × σ), Appends view P (request c f)

theorem callsAppend_replies {P : Reply → Prop} :
    CallsAppend (World.replies : World σ → List Reply) P := by
  refine fun α c f => .nothing fun w => ?_
  cases h : (f w.daemon).1 with
  | ok a => rw [after_ok (request_ok h), World.asked]
  | error e => rw [after_error (request_error h), World.asked]

theorem callsAppend_calls : CallsAppend (World.calls : World σ → List Call) fun _ => True := by
  refine fun α c f w => ⟨[c], ?_, fun _ _ => trivial⟩
  cases h : (f w.daemon).1 with
  | ok a => rw [Adds, after_ok (request_ok h), World.asked]
  | error e => rw [Adds, after_error (request_error h), World.asked]

theorem appends_ofExcept {x : Except Exn α} : Appends view P (ofExcept x) := by
  cases x with
  | ok a => exact .pure a
  | error e => exact .throw e

theorem appends_translating {what name : String} {x : Proc σ α} (h : Appends view P x) :
    Appends view P (translating what name x) :=
  .tryCatch (fun e => by cases e <;> exact .throw _) h

variable (hcalls : CallsAppend view P)

include hcalls

theorem appends_client : Appends view P (client E) :=
  .tryCatch (fun e => by cases e <;> exact .throw _) (hcalls _ _)

theorem appends_list {runningOnly : Bool} {label : Option String} :
    Appends view P (list E runningOnly label) :=
  .bind (appends_translating (.bind (appends_client hcalls) fun _ _ _ _ => hcalls _ _))
    fun _ _ _ _ => appends_ofExcept

theorem appends_acting {verb : Verb} {name : String} {timeout : Option Int} :
    Appends view P (do
      let container ← request (.get name) (E.get name)
      request (.act verb container timeout) (E.act verb container timeout)
      let container ← request (.reload container) (E.reload container)
      ofExcept (snapshot container)) := by
  refine .bind (hcalls _ _) fun _ _ _ _ => .bind (hcalls _ _) fun _ _ _ _ => ?_
  exact .bind (hcalls _ _) fun _ _ _ _ => appends_ofExcept

theorem appends_perform {verb : Verb} {name : String} {timeoutS : Int} :
    Appends view P (perform E verb name timeoutS) := by
  have hact {timeout : Option Int} : Appends view P (act E name verb timeout) :=
    appends_translating (.bind (appends_client hcalls) fun _ _ _ _ => appends_acting hcalls)
  cases verb <;> exact hact

theorem appends_removing {name : String} {force removeVolumes : Bool} :
    Appends view P (do
      let container ← request (.get name) (E.get name)
      let last ← ofExcept (snapshot container)
      let running ← ofExcept (liftPy (flag container "State" "Running"))
      if running && !force then
        throw (.backend .invalidState (pyRepr name ++ " is running; stop it first, or repeat with " ++
          "force to kill and remove it in one step"))
      request (.remove container force removeVolumes) (E.remove container force removeVolumes)
      return (last, running)) := by
  refine .bind (hcalls _ _) fun c _ _ _ => .bind appends_ofExcept fun last _ _ _ => ?_
  refine .bind appends_ofExcept fun running _ _ _ => ?_
  refine .ite (.bind (.throw _) fun _ _ _ _ => ?_) ?_
  all_goals exact .bind (hcalls _ _) fun _ _ _ _ => .pure _

theorem appends_remove {name : String} {force removeVolumes : Bool} :
    Appends view P (remove E name force removeVolumes) :=
  appends_translating (.bind (appends_client hcalls) fun _ _ _ _ => appends_removing hcalls)

theorem appends_fetch {c : Container} {out err want : Bool} {tail : Option Nat}
    {since : Option Int} : Appends view P (fetch E c out err want tail since) := by
  cases want with
  | true => exact hcalls _ _
  | false => exact .pure []

theorem appends_logs {name : String} {tail : Int} {since : Option Int} {out err : Bool} :
    Appends view P (logs E name tail since out err) := by
  refine appends_translating (.bind (appends_client hcalls) fun _ _ _ _ => ?_)
  refine .bind (hcalls _ _) fun c _ _ _ => .bind appends_ofExcept fun tty _ _ _ => ?_
  cases tty with
  | true =>
    exact .bind (appends_fetch hcalls) fun _ _ _ _ => .bind appends_ofExcept fun _ _ _ _ => .pure _
  | false =>
    refine .bind (appends_fetch hcalls) fun _ _ _ _ => .bind (appends_fetch hcalls) fun _ _ _ _ => ?_
    exact .bind appends_ofExcept fun _ _ _ _ => .pure _

end DockerBackend

/-! ### What a reply describes -/

/-- Every container in a reply is the description of a snapshot under the responder's guard. -/
def Describes (ctx : Context σ) : Reply → Prop
  | .ok (.list r) => ∀ i ∈ r.containers, ∃ s, info ctx s = .ok i
  | .ok (.action r) => ∃ s, info ctx s = .ok r.container
  | _ => True

theorem appends_replyOk {P : Reply → Prop} {response : Response} (h : P (.ok response)) :
    Appends World.replies P (replyOk response : Proc σ Unit) :=
  fun _ => ⟨[.ok response], rfl, by simpa using h⟩

theorem appends_replyErr {P : Reply → Prop} {description : String} {code : Code}
    (h : P (.err description code)) :
    Appends World.replies P (replyErr description code : Proc σ Unit) :=
  fun _ => ⟨[.err description code], rfl, by simpa using h⟩

theorem appends_parse {view : World σ → List τ} {P : τ → Prop} {cls : String}
    {decoded : Except String α} : Appends view P (parse cls decoded) := by
  cases decoded with
  | ok req => exact .pure req
  | error e => exact .throw _

theorem appends_requireName {view : World σ → List τ} {P : τ → Prop} {name : String} :
    Appends view P (requireName name) := by
  unfold requireName
  split
  · exact .throw _
  · exact .pure name

theorem appends_timeNs {view : World σ → List τ} {P : τ → Prop} : Appends view P timeNs :=
  .nothing fun _ => rfl

theorem appends_handleList (ctx : Context σ) (raw : Bytes) :
    Appends World.replies (Describes ctx) (handleList ctx raw) := by
  refine .bind appends_parse fun req _ _ _ => ?_
  refine .bind (DockerBackend.appends_list DockerBackend.callsAppend_replies) fun _ _ _ _ => ?_
  refine .bind appends_timeNs fun _ _ _ _ => .bind DockerBackend.appends_ofExcept ?_
  intro containers s s' h
  refine appends_replyOk fun i hi => ?_
  obtain ⟨snapshot, -, hs⟩ := exists_of_mapM_eq_ok (ofExcept_eq_ok.mp h).1 i hi
  exact ⟨snapshot, hs⟩

theorem appends_handleLogs (ctx : Context σ) (raw : Bytes) :
    Appends World.replies (Describes ctx) (handleLogs ctx raw) := by
  refine .bind appends_parse fun req _ _ _ => .bind appends_requireName fun name _ _ _ => ?_
  refine .bind (DockerBackend.appends_logs DockerBackend.callsAppend_replies) fun _ _ _ _ => ?_
  exact .bind DockerBackend.appends_ofExcept fun _ _ _ _ => appends_replyOk trivial

theorem appends_handleAction (verb : Verb) (ctx : Context σ) (raw : Bytes) :
    Appends World.replies (Describes ctx) (handleAction verb ctx raw) := by
  refine .bind appends_parse fun req _ _ _ => .bind appends_requireName fun name _ _ _ => ?_
  refine .ite (appends_replyErr (by trivial)) ?_
  refine .bind (DockerBackend.appends_perform DockerBackend.callsAppend_replies) ?_
  intro snapshot _ _ _
  refine .bind DockerBackend.appends_ofExcept fun container _ _ h => ?_
  exact appends_replyOk ⟨snapshot, (ofExcept_eq_ok.mp h).1⟩

theorem appends_handleRemove (ctx : Context σ) (raw : Bytes) :
    Appends World.replies (Describes ctx) (handleRemove ctx raw) := by
  refine .bind appends_parse fun req _ _ _ => .bind appends_requireName fun name _ _ _ => ?_
  refine .ite (appends_replyErr (by trivial)) ?_
  refine .bind (DockerBackend.appends_remove DockerBackend.callsAppend_replies) ?_
  exact fun _ _ _ _ => appends_replyOk (by trivial)

theorem describes_of_mem_replies {ctx : Context σ} {p : Procedure} {raw : Bytes} {d : σ} {t : Int}
    {reply : Reply} (h : reply ∈ replies ctx p raw d t) : Describes ctx reply := by
  have guarded_appends {handler : Bytes → Proc σ Unit}
      (hh : Appends World.replies (Describes ctx) (handler raw)) :
      Appends World.replies (Describes ctx) (guarded handler raw) :=
    .tryCatch (fun e => by cases e <;> first | exact appends_replyErr trivial | exact .throw _) hh
  have hbuild : Appends World.replies (Describes ctx) (build ctx p raw) := by
    cases p
    · exact guarded_appends (appends_handleList ctx raw)
    · exact guarded_appends (appends_handleLogs ctx raw)
    · exact guarded_appends (appends_handleAction .start ctx raw)
    · exact guarded_appends (appends_handleAction .stop ctx raw)
    · exact guarded_appends (appends_handleAction .restart ctx raw)
    · exact guarded_appends (appends_handleRemove ctx raw)
  exact hbuild.of_nil rfl reply h

/-! ### The list reply -/

namespace DockerBackend

variable {E : Engine σ} {runningOnly : Bool} {label : Option String} {w w' : World σ}
  {snapshots : List ContainerSnapshot}

/-- The snapshots of a listing, in terms of the daemon's answers. -/
def Listed (E : Engine σ) (runningOnly : Bool) (label : Option String) (d : σ)
    (snapshots : List ContainerSnapshot) : Prop :=
  ∃ u containers, (E.fromEnv d).1 = .ok u ∧
    (E.list (!runningOnly) label (E.fromEnv d).2).1 = .ok containers ∧
    containers.mapM snapshot = .ok snapshots

theorem list_of_listed (h : Listed E runningOnly label w.daemon snapshots) :
    ∃ w', list E runningOnly label w = .ok snapshots w' ∧ w'.replies = w.replies ∧
      w'.timeNs = w.timeNs := by
  obtain ⟨u, containers, hc, hl, hm⟩ := h
  have hlist := request_ok (w := w.asked .fromEnv (E.fromEnv w.daemon).2)
    (c := .list (!runningOnly) label) hl
  have hbody : (do client E; request (.list (!runningOnly) label) (E.list (!runningOnly) label)) w =
      _ := (run_bind_ok (client_ok hc)).trans hlist
  have htrans : translating "list containers" "" _ w = _ := run_tryCatch_ok hbody
  exact ⟨_, (run_bind_ok htrans).trans (congrArg (ofExcept · _) hm), rfl, rfl⟩

theorem listed_of_list (h : list E runningOnly label w = .ok snapshots w') :
    Listed E runningOnly label w.daemon snapshots := by
  obtain ⟨containers, w₂, h, hm⟩ := run_bind_eq_ok.mp h
  have hbody := (run_tryCatch_eq_ok fun e s => by cases e <;> exact nofun).mp h
  obtain ⟨u, w₁, hclient, hlist⟩ := run_bind_eq_ok.mp hbody
  cases hc : (E.fromEnv w.daemon).1 with
  | error e =>
    obtain ⟨e', he⟩ := client_error hc
    cases he.symm.trans hclient
  | ok u' =>
    cases (client_ok hc).symm.trans hclient
    cases hl : (E.list (!runningOnly) label (E.fromEnv w.daemon).2).1 with
    | error e => cases (request_error hl).symm.trans hlist
    | ok containers' =>
      cases (request_ok hl).symm.trans hlist
      exact ⟨_, _, hc, hl, (ofExcept_eq_ok.mp hm).1⟩

end DockerBackend

/-- The descriptions of a listing, in the order of the names. -/
def Described (ctx : Context σ) (d : σ) (infos : List ContainerInfo) : Prop :=
  ∃ snapshots, DockerBackend.Listed ctx.backend false none d snapshots ∧
    (sortByName snapshots).mapM (info ctx) = .ok infos

/-- A list request without options is answered with the descriptions of all containers. -/
theorem replies_list {ctx : Context σ} {d : σ} {infos : List ContainerInfo} (t : Int)
    (hdecode : ctx.pb.listContainersRequest [] = .ok { runningOnly := false, nameGlob := "" })
    (h : Described ctx d infos) :
    replies ctx .list [] d t = [.ok (.list {
      containers := infos
      observedAt := Timestamp.fromNanoseconds t
      controlEnabled := ctx.guard.controlEnabled
      removeEnabled := ctx.guard.removeEnabled })] := by
  obtain ⟨snapshots, hl, hm⟩ := h
  obtain ⟨w', hlist, hreplies, htime⟩ :=
    DockerBackend.list_of_listed (w := { daemon := d, timeNs := t }) hl
  have hrun : handleList ctx [] { daemon := d, timeNs := t } = .ok () (w'.answer (.ok (.list {
      containers := infos
      observedAt := Timestamp.fromNanoseconds t
      controlEnabled := ctx.guard.controlEnabled
      removeEnabled := ctx.guard.removeEnabled }))) := by
    unfold handleList
    rw [hdecode]
    refine (run_bind_ok (run_pure _ _)).trans ((run_bind_ok hlist).trans ?_)
    apply (run_bind_ok (rfl : timeNs w' = .ok w'.timeNs w')).trans
    simp only [ne_eq, not_true_eq_false, if_false, hm, htime]
    rfl
  rw [replies, build, guarded, after_ok (run_tryCatch_ok hrun)]
  simp [World.answer, hreplies]

end KeelsonDocker
