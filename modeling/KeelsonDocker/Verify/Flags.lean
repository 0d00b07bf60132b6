import KeelsonDocker.Verify.SelfProtection
import KeelsonDocker.Verify.StatusStream

/-!
# The reported flags and the calls they stand for

A flag is computed from a container's name and id, the handler's decision from the name alone
(`flag_agrees_iff`): they part on the responder's own container when only its id was recorded.
-/

namespace KeelsonDocker

open Effect

variable {σ : Type}

/-- The containers that list replies, action replies and status messages describe. -/
inductive Reported (ctx : Context σ) : ContainerInfo → Prop
  | list : .ok (.list r) ∈ replies ctx .list raw d t → i ∈ r.containers → Reported ctx i
  | action : .ok (.action r) ∈ replies ctx (Mutation.act verb).procedure raw d t →
    Reported ctx r.container
  | status {δ : Type} [DecidableEq δ] {pub : ContainerStatusPublisher σ δ} :
    pub.context ctx.limits = ctx → put ∈ (pub.loop ticks).puts → i ∈ put.message.containers →
    Reported ctx i

/-- The request gets past the guard: the handler calls the daemon. -/
def Reaches (ctx : Context σ) (m : Mutation) (raw : Bytes) (d : σ) (t : Int) : Prop :=
  (after (build ctx m.procedure raw) { daemon := d, timeNs := t }).calls ≠ []

/-- The flag reported for a verb. -/
def ContainerInfo.flag (i : ContainerInfo) : Mutation → Bool
  | .act _ => i.controllable
  | .remove => i.removable

/-! ### What is reported -/

theorem Reported.exists_snapshot {ctx : Context σ} {i : ContainerInfo} (h : Reported ctx i) :
    ∃ s, info ctx s = .ok i := by
  cases h with
  | list hr hi => exact describes_of_mem_replies hr i hi
  | action hr => exact describes_of_mem_replies hr
  | status hctx hput hi =>
    obtain ⟨d, snapshots, -, hm⟩ := ContainerStatusPublisher.described_of_mem_puts ctx.limits _ hput
    obtain ⟨s, -, hs⟩ := exists_of_mapM_eq_ok hm i hi
    exact ⟨s, hctx ▸ hs⟩

theorem Reported.flag_iff {ctx : Context σ} {i : ContainerInfo} (h : Reported ctx i)
    (m : Mutation) :
    i.flag m = true ↔ ctx.guard.controlEnabled = true ∧ ctx.guard.isSelf i.name i.id = false ∧
      matchesAny i.name (ctx.guard.globs m) = true := by
  obtain ⟨s, hs⟩ := h.exists_snapshot
  obtain ⟨hname, hid, hc, hr⟩ := buildContainerInfo_yields _ _ _ _ _ hs
  rw [hname, hid]
  cases m with
  | act verb =>
    rw [ContainerInfo.flag, hc]
    exact ControlGuard.decide_allowed ..
  | remove =>
    rw [ContainerInfo.flag, hr]
    exact ControlGuard.decideRemove_allowed ..

/-! ### What gets past the guard -/

theorem calls_ne_nil_then {x : Proc σ α} {f : α → Proc σ β} {w : World σ}
    (hx : (after x w).calls ≠ []) (hf : ∀ a, Appends World.calls (fun _ => True) (f a)) :
    (after (x >>= f) w).calls ≠ [] := by
  cases h : x w with
  | error e w' =>
    rw [after_bind_error h]
    rwa [after_error h] at hx
  | ok a w' =>
    obtain ⟨l, hl, -⟩ := hf a w'
    rw [after_bind_ok h, hl]
    rw [after_ok h] at hx
    simp [hx]

theorem calls_translating {what name : String} {x : Proc σ α} {w : World σ} :
    (after (DockerBackend.translating what name x) w).calls = (after x w).calls :=
  view_after_tryCatch (fun e s => by cases e <;> rfl) w

theorem calls_client {E : Engine σ} {w : World σ} :
    (after (DockerBackend.client E) w).calls ≠ [] := by
  cases h : (E.fromEnv w.daemon).1 with
  | ok u => simp [after_ok (DockerBackend.client_ok h), World.asked]
  | error e =>
    obtain ⟨e', he⟩ := DockerBackend.client_error h
    simp [after_error he, World.asked]

theorem calls_perform {E : Engine σ} {verb : Verb} {name : String} {timeoutS : Int} {w : World σ} :
    (after (DockerBackend.perform E verb name timeoutS) w).calls ≠ [] := by
  have hact {timeout : Option Int} :
      (after (DockerBackend.act E name verb timeout) w).calls ≠ [] := by
    rw [DockerBackend.act, calls_translating]
    exact calls_ne_nil_then calls_client fun _ =>
      DockerBackend.appends_acting DockerBackend.callsAppend_calls
  cases verb <;> exact hact

theorem calls_remove {E : Engine σ} {name : String} {force removeVolumes : Bool} {w : World σ} :
    (after (DockerBackend.remove E name force removeVolumes) w).calls ≠ [] := by
  rw [DockerBackend.remove, calls_translating]
  exact calls_ne_nil_then calls_client fun _ =>
    DockerBackend.appends_removing DockerBackend.callsAppend_calls

/-- Both handlers call the daemon exactly when there is a name that the guard lets through. -/
theorem calls_decided {name : String} (decision : String → Decision) {f : String → Proc σ Unit}
    {w : World σ} (hw : w.calls = []) (hf : (after (f name) w).calls ≠ []) :
    (after (do
        let name ← requireName name
        if !(decision name).allowed then replyErr (decision name).reason (decision name).code
        else f name) w).calls ≠ [] ↔ name ≠ "" ∧ (decision name).allowed = true := by
  by_cases hn : name = ""
  · have : (requireName name : Proc σ String) = throw _ := if_pos hn
    rw [this, after_bind_error (run_throw _ w)]
    simp [hw, hn]
  · have : (requireName name : Proc σ String) = pure name := if_neg hn
    rw [this, pure_bind]
    cases ha : (decision name).allowed with
    | false => simp [after, replyErr, World.answer, hw]
    | true => simpa [hn] using hf

theorem calls_guarded {handler : Bytes → Proc σ Unit} {raw : Bytes} {w : World σ} :
    (after (guarded handler raw) w).calls = (after (handler raw) w).calls :=
  view_after_tryCatch (fun e s => by cases e <;> rfl) w

theorem reaches_iff {ctx : Context σ} {m : Mutation} {raw : Bytes} {d : σ} {t : Int} {name : String}
    {force : Bool} (hreq : carried ctx.pb m raw = some (name, force)) :
    Reaches ctx m raw d t ↔ name ≠ "" ∧ ctx.guard.letsThrough m name = true := by
  cases m with
  | act verb =>
    have hbuild : Reaches ctx (.act verb) raw d t ↔
        (after (handleAction verb ctx raw) { daemon := d, timeNs := t }).calls ≠ [] := by
      cases verb <;> exact calls_guarded ▸ Iff.rfl
    rw [hbuild, handleAction]
    cases hdec : actionRequest ctx.pb verb raw with
    | error e => simp [carried, hdec, Except.toOption] at hreq
    | ok req =>
      simp only [carried, hdec, Except.toOption, Option.map_some, Option.some.injEq,
        Prod.mk.injEq] at hreq
      rw [after_bind_ok (rfl : parse _ (.ok req) _ = .ok req _), hreq.1]
      refine calls_decided (fun name => ctx.guard.decide name "" verb.name) rfl ?_
      refine calls_ne_nil_then calls_perform fun s => .bind DockerBackend.appends_ofExcept ?_
      exact fun _ _ _ _ => .nothing fun _ => rfl
  | remove =>
    rw [Reaches, Mutation.procedure, build, calls_guarded, handleRemove]
    cases hdec : ctx.pb.removeContainerRequest raw with
    | error e => simp [carried, hdec, Except.toOption] at hreq
    | ok req =>
      simp only [carried, hdec, Except.toOption, Option.map_some, Option.some.injEq,
        Prod.mk.injEq] at hreq
      rw [after_bind_ok (rfl : parse _ (.ok req) _ = .ok req _), hreq.1]
      refine calls_decided (fun name => ctx.guard.decideRemove name) rfl ?_
      exact calls_ne_nil_then calls_remove fun s => .nothing fun _ => rfl

/-! ### Where they agree -/

/-- The flag reported for a container says whether a request that names it would get past the guard,
exactly when either the guard refuses the name on other grounds, or the own container is recognised by
its name as it is by its id. -/
theorem flag_agrees_iff {ctx : Context σ} {i : ContainerInfo} (hi : Reported ctx i) {m : Mutation}
    {raw : Bytes} {force : Bool} (hreq : carried ctx.pb m raw = some (i.name, force)) (d : σ)
    (t : Int) :
    (i.flag m = true ↔ Reaches ctx m raw d t) ↔
      (ctx.guard.controlEnabled = true → matchesAny i.name (ctx.guard.globs m) = true →
        if i.name = "" then ctx.guard.isSelf "" i.id = true
        else ctx.guard.isSelf "" i.id = true → ctx.guard.isSelf i.name = true) := by
  have hempty : ctx.guard.isSelf "" = false := by
    rw [← Bool.not_eq_true, ControlGuard.isSelf_name]
    simp
  rw [hi.flag_iff, reaches_iff hreq, ControlGuard.letsThrough_iff, ControlGuard.isSelf_eq_or,
    Bool.or_eq_false_iff]
  by_cases hn : i.name = ""
  · rw [hn, hempty]
    cases ctx.guard.isSelf "" i.id <;> simp
  · rw [if_neg hn]
    cases ctx.guard.isSelf "" i.id <;> cases ctx.guard.isSelf i.name <;> simp [hn]

/-- Every reported flag says whether the request it stands for would get past the guard. -/
def FlagsAgree : Prop :=
  ∀ (σ : Type) (ctx : Context σ) (args : Args) (proc : ProcSelf) (d₀ : σ),
    LooksUp ctx.backend → buildGuard ctx.backend args proc d₀ = some ctx.guard →
    ∀ i, Reported ctx i → ∀ m raw force d t, carried ctx.pb m raw = some (i.name, force) →
      (i.flag m = true ↔ Reaches ctx m raw d t)

/-! ### An identity without the name -/

namespace IdOnly

open OwnPrefix (own ownId)

/-- A daemon that gives no answer in the state `none`. -/
def unsteady : Engine (Option (List Container)) where
  fromEnv d := (.ok (), d)
  list _ _ d := (d.elim (.error (.other "Read timed out.")) .ok, d)
  get s d := (d.elim (.error (.other "Read timed out.")) (lookUp · s), d)
  act _ _ _ d := (.ok (), d)
  reload c d := (.ok c, d)
  remove _ _ _ d := (.ok (), d)
  logs _ _ _ _ _ d := (.ok [], d)
  stats _ d := (.ok .none, d)

theorem looksUp_unsteady : LooksUp unsteady := by
  intro s d c h
  cases d with
  | none => cases h
  | some cs => exact looksUp_host h

/-- `--allow-control --allow '*'` -/
def args : Args where
  allowControl := true
  allow := ["*"]
  allowRemove := []
  selfContainerName := none

def proc : ProcSelf where
  mountinfo := "812 790 8:1 /var/lib/docker/containers/" ++ ownId ++ "/hosts /etc/hosts rw\n"
  cgroup := "0::/\n"

/-- The lookup at startup found no answer, so the identity lacks the name. -/
def ctx : Context (Option (List Container)) where
  backend := unsteady
  guard := {
    controlEnabled := true
    allowGlobs := ["*"]
    selfIdentity := {ownId, "3f9c27d05e1b"} }
  pb := wire

theorem buildGuard_eq : buildGuard ctx.backend args proc none = some ctx.guard := by
  decide +kernel

/-- The description of the own container: not controllable. -/
def ownInfo : ContainerInfo where
  name := "keelson-interface-docker"
  id := ownId
  image := ""
  state := .running
  rawState := "running"
  createdAt := none
  startedAt := none
  finishedAt := none
  exitCode := none
  restartPolicy := .unspecified
  restartPolicyMaxRetries := 0
  restartCount := 0
  health := .none
  controllable := false
  composeProject := ""
  composeService := ""
  removable := false

theorem reported_ownInfo : Reported ctx ownInfo := by
  have hd : Described ctx (some [own]) [ownInfo] := ⟨_, ⟨(), [own], rfl, rfl, rfl⟩, by decide +kernel⟩
  have hr := replies_list 0 rfl hd
  exact .list (hr ▸ List.mem_singleton_self _) (List.mem_singleton_self ownInfo)

theorem carried_ownInfo (m : Mutation) :
    carried ctx.pb m (writeName "keelson-interface-docker") = some (ownInfo.name, false) := by
  rcases m with (- | - | -) | - <;> decide +kernel

/-- A stop request that names the own container reaches the daemon, though its flag is down. -/
theorem not_flagsAgree : ¬ FlagsAgree := by
  intro h
  have hflag := h _ ctx args proc none looksUp_unsteady buildGuard_eq ownInfo reported_ownInfo
    (.act .stop) _ _ none 0 (carried_ownInfo _)
  have hreach := (reaches_iff (d := none) (t := 0) (carried_ownInfo (.act .stop))).mpr
    ⟨by decide, by decide +kernel⟩
  exact absurd (hflag.mpr hreach) (by decide)

/-- A removal is reported and refused alike: no list allows one. -/
theorem flag_agrees_iff_ownInfo :
    ownInfo.flag .remove = true ↔
      Reaches ctx .remove (writeName "keelson-interface-docker") none 0 :=
  (flag_agrees_iff reported_ownInfo (carried_ownInfo .remove) none 0).mpr fun _ h =>
    absurd h (by decide)

end IdOnly

end KeelsonDocker
