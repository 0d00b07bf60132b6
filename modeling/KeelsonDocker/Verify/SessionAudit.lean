import KeelsonDocker.StatsPublisher
import KeelsonDocker.StatusPublisher
import KeelsonDocker.Verify.Replies
import KeelsonDocker.Verify.SelfProtection
import KeelsonDocker.Verify.Startup

/-!
# What the flags bound

A responder answers requests and takes its snapshots in any order, and the daemon may be anything in between.
Every container it changes was named by a request for that very change, and the flags it was started with let
that name through (`AppHost.flags_bound_session`).
-/

namespace KeelsonDocker

open Effect

variable {σ δ : Type}

/-! ### What changes nothing -/

namespace DockerBackend

variable {E : Engine σ}

theorem silent_request {c : Call} {f : σ → Except Exn α × σ} (h : c.mutation = none) :
    Silent World.mutations (request c f) :=
  fun _ => ⟨c.mutation.toList, adds_request, by simp [h]⟩

theorem silent_client : Silent World.mutations (client E) :=
  .tryCatch (fun e => by cases e <;> exact .throw _) (silent_request rfl)

theorem silent_list {runningOnly : Bool} {label : Option String} :
    Silent World.mutations (list E runningOnly label) := by
  refine .bind (appends_translating (.bind silent_client fun _ _ _ _ => ?_)) fun _ _ _ _ => appends_ofExcept
  exact silent_request rfl

theorem silent_stats {nameOrId : String} : Silent World.mutations (stats E nameOrId) := by
  refine appends_translating (.bind silent_client fun _ _ _ _ => ?_)
  exact .bind (silent_request rfl) fun _ _ _ _ => .pure _

theorem silent_fetch {c : Container} {out err want : Bool} {tail : Option Nat} {since : Option Int} :
    Silent World.mutations (fetch E c out err want tail since) := by
  cases want with
  | true => exact silent_request rfl
  | false => exact .pure []

theorem silent_logs {name : String} {tail : Int} {since : Option Int} {out err : Bool} :
    Silent World.mutations (logs E name tail since out err) := by
  refine appends_translating (.bind silent_client fun _ _ _ _ => ?_)
  refine .bind (silent_request rfl) fun c _ _ _ => .bind appends_ofExcept fun tty _ _ _ => ?_
  cases tty with
  | true => exact .bind silent_fetch fun _ _ _ _ => .bind appends_ofExcept fun _ _ _ _ => .pure _
  | false =>
    refine .bind silent_fetch fun _ _ _ _ => .bind silent_fetch fun _ _ _ _ => ?_
    exact .bind appends_ofExcept fun _ _ _ _ => .pure _

end DockerBackend

section

open DockerBackend

theorem silent_replyOk {response : Response} : Silent World.mutations (replyOk response : Proc σ Unit) :=
  .nothing fun _ => rfl

theorem silent_handleList (ctx : Context σ) (raw : Bytes) :
    Silent World.mutations (handleList ctx raw) := by
  refine .bind appends_parse fun req _ _ _ => .bind silent_list fun _ _ _ _ => ?_
  exact .bind appends_timeNs fun _ _ _ _ => .bind appends_ofExcept fun _ _ _ _ => silent_replyOk

theorem silent_handleLogs (ctx : Context σ) (raw : Bytes) :
    Silent World.mutations (handleLogs ctx raw) := by
  refine .bind appends_parse fun req _ _ _ => .bind appends_requireName fun name _ _ _ => ?_
  exact .bind silent_logs fun _ _ _ _ => .bind appends_ofExcept fun _ _ _ _ => silent_replyOk

theorem ContainerStatusPublisher.silent_snapshot (pub : ContainerStatusPublisher σ δ) :
    Silent World.mutations pub.snapshot :=
  .bind silent_list fun _ _ _ _ => appends_ofExcept

theorem ContainerStatsPublisher.silent_sweep (pub : ContainerStatsPublisher σ)
    (previous : List (String × StatsSample)) (monotonicS : Nat → ℚ) :
    Silent World.mutations (pub.sweep previous monotonicS) := by
  refine .bind silent_list fun snapshots _ _ _ => ?_
  generalize (pub.selected snapshots).zipIdx = targets
  generalize ({} : Sweep) = acc
  induction targets generalizing acc with
  | nil => exact .pure acc
  | cons target targets ih =>
    rw [List.foldlM_cons]
    refine .bind ?_ fun acc _ _ _ => ih acc
    refine .bind (.tryCatch (fun _ => .pure none) ?_) fun found _ _ _ => ?_
    · exact .bind silent_stats fun _ _ _ _ => .pure _
    · cases found with
      | none => exact .pure acc
      | some raw =>
        refine .bind appends_ofExcept fun usage _ _ _ => ?_
        cases usage <;> exact .pure _

end

/-! ### What a responder does -/

/-- A responder: its handlers, and the publishers that take snapshots of their own. -/
structure Responder (σ δ : Type) where
  ctx : Context σ
  status : ContainerStatusPublisher σ δ
  stats : ContainerStatsPublisher σ

inductive Activity
  | request (p : Procedure) (raw : Bytes)
  /-- The status publisher takes its snapshot. -/
  | status
  /-- The stats publisher makes its sweep, with the samples of the one before. -/
  | stats (previous : List (String × StatsSample)) (monotonicS : Nat → ℚ)

/-- An activity, with what happened to the daemon before it and the reading of the clock. -/
structure Occasion (σ : Type) where
  turn : σ → σ
  timeNs : Int
  activity : Activity

namespace Responder

variable (responder : Responder σ δ)

def perform : Activity → Proc σ Unit
  | .request p raw => build responder.ctx p raw
  | .status => do
    let _ ← responder.status.snapshot
  | .stats previous monotonicS => do
    let _ ← responder.stats.sweep previous monotonicS

/-- What an occasion leaves, whether the activity returns or raises. -/
def turn (w : World σ) (o : Occasion σ) : World σ :=
  after (responder.perform o.activity) { w with daemon := o.turn w.daemon, timeNs := o.timeNs }

def session (d : σ) (occasions : List (Occasion σ)) : World σ :=
  occasions.foldl responder.turn { daemon := d }

variable {responder}

/-- The change was asked for by the activity, and the guard lets the name through. -/
def Asked (responder : Responder σ δ) (activity : Activity) (change : Mutation × Container) : Prop :=
  ∃ raw name force, activity = .request change.1.procedure raw ∧
    carried responder.ctx.pb change.1 raw = some (name, force) ∧ name ≠ "" ∧
    responder.ctx.guard.letsThrough change.1 name = true

theorem asked_of_target {m : Mutation} {raw : Bytes} {d : σ} {change : Mutation × Container}
    (h : change ∈ (target responder.ctx m raw d).toList.map (Prod.mk m)) :
    responder.Asked (.request m.procedure raw) change := by
  obtain ⟨c, hc, rfl⟩ := List.mem_map.mp h
  obtain ⟨⟨name, force⟩, hcarried, hc⟩ := Option.bind_eq_some_iff.mp (Option.mem_toList.mp hc)
  dsimp only at hc
  split at hc
  · cases hc
  · rename_i hnot
    rw [Bool.or_eq_true, not_or, decide_eq_true_eq, Bool.not_eq_true', Bool.not_eq_false] at hnot
    exact ⟨raw, name, force, rfl, hcarried, hnot.1, hnot.2⟩

theorem appends_request (p : Procedure) (raw : Bytes) :
    Appends World.mutations (responder.Asked (.request p raw)) (build responder.ctx p raw) := by
  have hsilent {handler : Bytes → Proc σ Unit} (h : Silent World.mutations (handler raw)) :
      Appends World.mutations (responder.Asked (.request p raw)) (guarded handler raw) := by
    refine .tryCatch (fun e => ?_) (.nothing h.view_after)
    cases e with
    | backend code message => exact .nothing fun _ => rfl
    | _ => exact .throw _
  have hmutation (m : Mutation) {handler : Bytes → Proc σ Unit}
      (h : ∀ w, Adds World.mutations (handler raw) w
        ((target responder.ctx m raw w.daemon).toList.map (Prod.mk m))) :
      Appends World.mutations (responder.Asked (.request m.procedure raw)) (guarded handler raw) :=
    fun w => ⟨_, adds_guarded (h w), fun _ => asked_of_target⟩
  cases p with
  | list => exact hsilent (silent_handleList responder.ctx raw)
  | logs => exact hsilent (silent_handleLogs responder.ctx raw)
  | start => exact hmutation (.act .start) fun w => adds_handleAction responder.ctx .start raw w
  | stop => exact hmutation (.act .stop) fun w => adds_handleAction responder.ctx .stop raw w
  | restart => exact hmutation (.act .restart) fun w => adds_handleAction responder.ctx .restart raw w
  | remove => exact hmutation .remove fun w => adds_handleRemove responder.ctx raw w

variable (responder) in
theorem appends_perform (activity : Activity) :
    Appends World.mutations (responder.Asked activity) (responder.perform activity) := by
  cases activity with
  | request p raw => exact appends_request p raw
  | status =>
    exact .bind (.nothing responder.status.silent_snapshot.view_after) fun _ _ _ _ => .pure _
  | stats previous monotonicS =>
    exact .bind (.nothing (responder.stats.silent_sweep previous monotonicS).view_after)
      fun _ _ _ _ => .pure _

/-- Every change of a session was asked for. -/
theorem asked_of_session {d : σ} {occasions : List (Occasion σ)} {change : Mutation × Container}
    (h : change ∈ (responder.session d occasions).mutations) :
    ∃ o ∈ occasions, responder.Asked o.activity change := by
  induction occasions using List.reverseRecOn with
  | nil => cases h
  | append_singleton occasions o ih =>
    unfold session at h ih
    rw [List.foldl_append] at h
    obtain ⟨l, hl, hasked⟩ := appends_perform responder o.activity
      { occasions.foldl responder.turn { daemon := d } with
        daemon := o.turn (occasions.foldl responder.turn { daemon := d }).daemon, timeNs := o.timeNs }
    have hadds : (responder.turn (occasions.foldl responder.turn { daemon := d }) o).mutations =
        (occasions.foldl responder.turn { daemon := d }).mutations ++ l := hl
    rw [List.foldl_cons, List.foldl_nil, hadds] at h
    obtain h | h := List.mem_append.mp h
    · obtain ⟨o', ho', hasked'⟩ := ih h
      exact ⟨o', List.mem_append_left _ ho', hasked'⟩
    · exact ⟨o, List.mem_append_right _ List.mem_cons_self, hasked change h⟩

end Responder

/-- The flag whose globs bound a change. -/
def AppArgs.globs (args : AppArgs) : Mutation → List String
  | .act _ => args.allow
  | .remove => args.allowRemove

/-- **What the flags bound.** Whatever a responder is asked, in whatever order and whatever becomes of the
daemon in between: every change it makes was asked for by a request for just that change, which names a
container; control was allowed at startup, a glob given for that change matches the name, and the name is
none that the responder knows itself by. -/
theorem AppHost.flags_bound_session {host : AppHost σ} {args : AppArgs} {guard : ControlGuard} {l : Limits}
    (hserved : .servedControl guard l ∈ after (host.main args) []) {responder : Responder σ δ}
    (hguard : responder.ctx.guard = guard) (d : σ) (occasions : List (Occasion σ))
    {m : Mutation} {c : Container} (h : (m, c) ∈ (responder.session d occasions).mutations) :
    args.allowControl = true ∧ ∃ o ∈ occasions, ∃ raw name force, o.activity = .request m.procedure raw ∧
      carried responder.ctx.pb m raw = some (name, force) ∧ matchesAny name (args.globs m) = true ∧
      name ∉ guard.selfIdentity ∧ args.selfContainerName ≠ some name := by
  obtain ⟨o, ho, raw, name, force, hrequest, hcarried, hne, hlets⟩ := Responder.asked_of_session h
  rw [hguard] at hlets
  obtain ⟨hcontrol, hself, hglob⟩ := ControlGuard.letsThrough_iff.mp hlets
  obtain ⟨hcoherent, -, -, hbuild⟩ := trace_permitted hserved
  obtain ⟨-, hargs, hglobs, -⟩ := hcoherent.guard hbuild
  have hallow : args.allowControl = true := hargs.symm.trans hcontrol
  have hidentity : name ∉ guard.selfIdentity := by
    intro hin
    rw [(guard.isSelf_name name).mpr ⟨hne, hin⟩] at hself
    cases hself
  refine ⟨hallow, o, ho, raw, name, force, hrequest, hcarried, ?_, hidentity, fun hname => ?_⟩
  · obtain ⟨hallowGlobs, hremoveGlobs⟩ := hglobs hallow
    cases m with
    | act verb => rwa [ControlGuard.globs, hallowGlobs] at hglob
    | remove => rwa [ControlGuard.globs, hremoveGlobs] at hglob
  · exact hidentity ((mem_selfIdentity hbuild hcontrol).mpr (.explicit hname hne))

namespace RouterSession

/-- `--allow-control --allow 'zenoh-*' --self-container-name keelson-interface-docker` -/
def args : AppArgs where
  realm := "keelson"
  entityId := "vessel"
  sourceId := "docker"
  allowControl := true
  allow := ["zenoh-*"]
  allowRemove := []
  selfContainerName := some "keelson-interface-docker"

def guard : ControlGuard where
  controlEnabled := true
  allowGlobs := ["zenoh-*"]
  selfIdentity := {"keelson-interface-docker"}

/-- Nothing fails, and the process is asked to stop at once. -/
def machine : AppHost (List Container) where
  engine := host
  ping _ := .ok ()
  proc := { mountinfo := "", cgroup := "" }
  daemon := [router]
  pathText root := root
  holdsGit _ := false
  openSession := .ok ()
  closeSession := .ok ()
  declareLiveliness _ := .ok ()
  retractLiveliness := .ok ()
  serveRpc _ := .ok ()
  start _ := .ok ()
  stop _ := .ok ()
  hold := .ok ()
  rpcKey := "keelson/@v0/vessel/@rpc/container_control/v1/*/docker"
  pubsubKey subject := "keelson/@v0/vessel/pubsub/" ++ subject ++ "/docker"

def responder : Responder (List Container) Nat where
  ctx := { backend := host, guard, pb := wire }
  status := { backend := host, guard, digest := List.length, pb := wire }
  stats := { backend := host }

/-- A restart of the router between two snapshots. -/
def occasions : List (Occasion (List Container)) :=
  [⟨id, 0, .status⟩, ⟨id, 1, .request .restart (writeName "zenoh-router")⟩, ⟨id, 2, .status⟩]

theorem flags_bound_session_router :
    (responder.session [router] occasions).mutations = [(.act .restart, router)] ∧
    ∃ name, matchesAny name ["zenoh-*"] = true ∧ name ∉ guard.selfIdentity := by
  have hserved : ∃ before rest, after (machine.main args) [] =
      before ++ AppEvent.servedControl guard {} :: rest :=
    ⟨[_, _, _, _, _], [_, _, _, _, _, _, _], rfl⟩
  obtain ⟨before, rest, htrace⟩ := hserved
  have hmem : AppEvent.servedControl guard {} ∈ after (machine.main args) [] := by
    rw [htrace]
    exact List.mem_append_right before List.mem_cons_self
  have hchanges : (responder.session [router] occasions).mutations = [(.act .restart, router)] := rfl
  have hchange : (Mutation.act .restart, router) ∈
      (responder.session [router] occasions).mutations := by
    rw [hchanges]
    exact List.mem_singleton_self _
  obtain ⟨-, -, -, -, name, -, -, -, hname, hself, -⟩ :=
    AppHost.flags_bound_session hmem rfl [router] occasions hchange
  exact ⟨hchanges, name, hname, hself⟩

end RouterSession

end KeelsonDocker
