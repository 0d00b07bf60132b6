import KeelsonDocker.Handlers
import KeelsonDocker.Theory.Effect

/-!
# What a request makes the backend do

`mem_performed`: a start, stop, restart or remove request makes the daemon perform its verb on a
container exactly when the request decodes, the guard lets its string through, the daemon resolves the
string to that container and, for a removal, the backend goes ahead.
-/

namespace KeelsonDocker

open Effect

variable {σ : Type}

/-- The verbs that change a container. -/
inductive Mutation
  | act (verb : Verb)
  | remove
  deriving DecidableEq

def Mutation.procedure : Mutation → Procedure
  | act .start => .start
  | act .stop => .stop
  | act .restart => .restart
  | remove => .remove

/-- The change a call asks of the daemon. -/
def Call.mutation : Call → Option (Mutation × Container)
  | act verb container _ => some (.act verb, container)
  | remove container _ _ => some (.remove, container)
  | _ => none

def World.mutations (w : World σ) : List (Mutation × Container) := w.calls.filterMap Call.mutation

/-- What a request made the daemon change, and to which containers. -/
def performed (ctx : Context σ) (m : Mutation) (raw : Bytes) (d : σ) (t : Int) :
    List (Mutation × Container) :=
  (after (build ctx m.procedure raw) { daemon := d, timeNs := t }).mutations

/-! ### The conditions on the way -/

/-- The string a request carries as name, and its `force`. -/
def carried (pb : Protobuf) (m : Mutation) (raw : Bytes) : Option (String × Bool) :=
  match m with
  | .act verb => (actionRequest pb verb raw).toOption.map fun req => (req.name, false)
  | .remove => (pb.removeContainerRequest raw).toOption.map fun req => (req.name, req.force)

namespace ControlGuard

/-- The allow-list of a verb. -/
def globs (guard : ControlGuard) : Mutation → List String
  | .act _ => guard.allowGlobs
  | .remove => guard.removeGlobs

/-- The guard's answer in the handler, which has only the string. -/
def letsThrough (guard : ControlGuard) (m : Mutation) (name : String) : Bool :=
  match m with
  | .act verb => (guard.decide name "" verb.name).allowed
  | .remove => (guard.decideRemove name).allowed

theorem letsThrough_iff {guard : ControlGuard} {m : Mutation} {name : String} :
    guard.letsThrough m name = true ↔
      guard.controlEnabled = true ∧ guard.isSelf name = false ∧
        matchesAny name (guard.globs m) = true := by
  cases m with
  | act verb => exact decide_allowed ..
  | remove => exact decideRemove_allowed ..

end ControlGuard

/-- The container `containers.get(name)` answers with, if the daemon can be reached. -/
def resolved (E : Engine σ) (name : String) (d : σ) : Option Container :=
  match (E.fromEnv d).1 with
  | .ok _ => (E.get name (E.fromEnv d).2).1.toOption
  | .error _ => none

/-- A removal goes ahead when the container can be read and is not running, or with `force`. -/
def goesAhead (m : Mutation) (force : Bool) (container : Container) : Bool :=
  match m with
  | .act _ => true
  | .remove =>
    (DockerBackend.snapshot container).toBool &&
      match DockerBackend.flag container "State" "Running" with
      | .ok running => !running || force
      | .error _ => false

/-! ### The backend -/

/-- The world once a call has been answered. -/
def World.asked (w : World σ) (c : Call) (d : σ) : World σ :=
  { w with daemon := d, calls := w.calls ++ [c] }

@[simp] theorem World.asked_daemon (w : World σ) (c : Call) (d : σ) :
    (w.asked c d).daemon = d := rfl

@[simp] theorem World.asked_mutations (w : World σ) (c : Call) (d : σ) :
    (w.asked c d).mutations = w.mutations ++ c.mutation.toList := by
  cases h : c.mutation <;> simp [asked, mutations, h]

theorem request_ok {c : Call} {f : σ → Except Exn α × σ} {w : World σ} {a : α}
    (h : (f w.daemon).1 = .ok a) : request c f w = .ok a (w.asked c (f w.daemon).2) := by
  simp [request, h, World.asked]

theorem request_error {c : Call} {f : σ → Except Exn α × σ} {w : World σ} {e : Exn}
    (h : (f w.daemon).1 = .error e) : request c f w = .error e (w.asked c (f w.daemon).2) := by
  simp [request, h, World.asked]

theorem adds_request {c : Call} {f : σ → Except Exn α × σ} {w : World σ} :
    Adds World.mutations (request c f) w c.mutation.toList := by
  cases h : (f w.daemon).1 with
  | ok a => rw [Adds, after_ok (request_ok h), World.asked_mutations]
  | error e => rw [Adds, after_error (request_error h), World.asked_mutations]

theorem ofExcept_eq_ok {x : Except Exn α} {a : α} {w w' : World σ} :
    ofExcept x w = .ok a w' ↔ x = .ok a ∧ w' = w := by
  cases x with
  | ok b => exact ⟨fun h => by cases h; exact ⟨rfl, rfl⟩, fun ⟨h, hw⟩ => by cases h; rw [hw]; rfl⟩
  | error e => exact ⟨nofun, nofun⟩

theorem adds_ofExcept {x : Except Exn α} {w : World σ} :
    Adds World.mutations (ofExcept x) w [] := by
  cases x with
  | ok a => exact .pure a
  | error e => exact .throw e

namespace DockerBackend

variable {E : Engine σ} {name : String} {w : World σ}

theorem adds_translating {what : String} {x : Proc σ α} {l : List (Mutation × Container)}
    (h : Adds World.mutations x w l) : Adds World.mutations (translating what name x) w l := by
  refine .tryCatch (fun e s => ?_) h
  cases e <;> rfl

theorem client_ok {u : Unit} (h : (E.fromEnv w.daemon).1 = .ok u) :
    client E w = .ok u (w.asked .fromEnv (E.fromEnv w.daemon).2) :=
  run_tryCatch_ok (request_ok h)

theorem client_error {e : Exn} (h : (E.fromEnv w.daemon).1 = .error e) :
    ∃ e', client E w = .error e' (w.asked .fromEnv (E.fromEnv w.daemon).2) := by
  rw [client, run_tryCatch_error (request_error h)]
  cases e <;> exact ⟨_, rfl⟩

/-- A procedure that looks a container up and goes on with it adds what the second part adds. -/
theorem adds_lookup (E : Engine σ) (name : String) (w : World σ) {f : Container → Proc σ α}
    {l : Container → List (Mutation × Container)}
    (hf : ∀ c w, Adds World.mutations (f c) w (l c)) :
    Adds World.mutations (do client E; let c ← request (.get name) (E.get name); f c) w
      ((resolved E name w.daemon).toList.flatMap l) := by
  unfold resolved
  cases hc : (E.fromEnv w.daemon).1 with
  | error e =>
    obtain ⟨e', he⟩ := client_error hc
    refine .bind_error he ?_
    rw [Adds, after_error he]
    simp [Call.mutation]
  | ok u =>
    have hok := client_ok hc
    have h0 : Adds World.mutations (client E) w [] := by
      rw [Adds, after_ok hok]
      simp [Call.mutation]
    refine .bind_ok hok h0 ?_
    cases hg : (E.get name (E.fromEnv w.daemon).2).1 with
    | error e => exact .bind_error (request_error hg) adds_request
    | ok c =>
      have hget := request_ok (w := w.asked .fromEnv (E.fromEnv w.daemon).2) (c := .get name) hg
      simpa [Call.mutation, Except.toOption] using adds_request.bind_ok hget (hf c _)

/-- The same when the second part changes the container, or nothing, by a test. -/
theorem adds_lookup_ite {f : Container → Proc σ α} {m : Mutation} {p : Container → Bool}
    (hf : ∀ c w, Adds World.mutations (f c) w (if p c then [(m, c)] else [])) :
    Adds World.mutations (do client E; let c ← request (.get name) (E.get name); f c) w
      (((resolved E name w.daemon).filter p).toList.map (Prod.mk m)) := by
  have h := adds_lookup E name w hf
  cases hr : resolved E name w.daemon with
  | none => simpa [hr] using h
  | some c => cases hp : p c <;> simpa [hr, hp, Option.filter] using h

theorem adds_act {verb : Verb} {timeout : Option Int} {force : Bool} :
    Adds World.mutations (act E name verb timeout) w
      (((resolved E name w.daemon).filter (goesAhead (.act verb) force)).toList.map
        (Prod.mk (.act verb))) := by
  refine adds_translating (adds_lookup_ite fun c w => ?_)
  refine Adds.then_nothing (adds_request (c := .act verb c timeout)) fun _ w => ?_
  exact Adds.then_nothing (adds_request (c := .reload c)) fun _ _ => adds_ofExcept

theorem adds_perform {verb : Verb} {timeoutS : Int} {force : Bool} :
    Adds World.mutations (perform E verb name timeoutS) w
      (((resolved E name w.daemon).filter (goesAhead (.act verb) force)).toList.map
        (Prod.mk (.act verb))) := by
  cases verb <;> exact adds_act

theorem adds_remove {force removeVolumes : Bool} :
    Adds World.mutations (remove E name force removeVolumes) w
      (((resolved E name w.daemon).filter (goesAhead .remove force)).toList.map
        (Prod.mk .remove)) := by
  refine adds_translating (adds_lookup_ite fun c w => ?_)
  cases hs : snapshot c with
  | error e =>
    have hgo : goesAhead .remove force c = false := by simp [goesAhead, hs, Except.toBool]
    rw [hgo]
    exact .bind_error (run_throw e w) (.throw e)
  | ok last =>
    apply Adds.bind_ok (run_pure last w) (.pure last)
    cases hr : flag c "State" "Running" with
    | error e =>
      have hgo : goesAhead .remove force c = false := by simp [goesAhead, hr]
      rw [hgo]
      exact .bind_error (run_throw (Exn.py e) w) (.throw _)
    | ok running =>
      apply Adds.bind_ok (run_pure running w) (.pure running)
      have hgo : goesAhead .remove force c = !(running && !force) := by
        cases running <;> cases force <;> simp [goesAhead, hs, hr, Except.toBool]
      cases hrun : running && !force with
      | true =>
        rw [hgo, hrun]
        exact .bind_error (run_throw _ w) (.throw _)
      | false =>
        rw [hgo, hrun]
        exact Adds.then_nothing (adds_request (c := .remove c force removeVolumes)) fun _ _ => .pure _

end DockerBackend

/-! ### The handlers -/

/-- The container a request changes, if any. -/
def target (ctx : Context σ) (m : Mutation) (raw : Bytes) (d : σ) : Option Container := do
  let (name, force) ← carried ctx.pb m raw
  if name = "" || !ctx.guard.letsThrough m name then none
  else (resolved ctx.backend name d).filter (goesAhead m force)

theorem adds_replyOk {response : Response} {w : World σ} :
    Adds World.mutations (replyOk response) w [] := by
  simp [Adds, after, replyOk, World.answer, World.mutations]

theorem adds_replyErr {description : String} {code : Code} {w : World σ} :
    Adds World.mutations (replyErr description code) w [] := by
  simp [Adds, after, replyErr, World.answer, World.mutations]

/-- What the verb does once the request is decoded, in the order of both handlers: the name, the
guard, then the backend. -/
theorem adds_decided {name : String} (decision : String → Decision) {f : String → Proc σ Unit}
    {w : World σ} {l : List (Mutation × Container)} (hf : Adds World.mutations (f name) w l) :
    Adds World.mutations
      (do
        let name ← requireName name
        if !(decision name).allowed then replyErr (decision name).reason (decision name).code
        else f name)
      w (if name = "" || !(decision name).allowed then [] else l) := by
  by_cases hn : name = ""
  · have : (requireName name : Proc σ String) = throw _ := if_pos hn
    rw [this, hn]
    exact .bind_error (run_throw _ w) (.throw _)
  · have : (requireName name : Proc σ String) = pure name := if_neg hn
    rw [this, pure_bind]
    cases ha : (decision name).allowed with
    | false => simpa [hn] using adds_replyErr
    | true => simpa [hn] using hf

/-- What is left of the handler once the request is decoded and has a name. -/
theorem handleAction_of_decoded {ctx : Context σ} {verb : Verb} {raw : Bytes} {req : ActionRequest}
    (h : actionRequest ctx.pb verb raw = .ok req) (hname : req.name ≠ "") :
    handleAction verb ctx raw =
      if !(ctx.guard.decide req.name "" verb.name).allowed then
        replyErr (ctx.guard.decide req.name "" verb.name).reason
          (ctx.guard.decide req.name "" verb.name).code
      else (do
        let timeout : Int := if req.timeoutS ≠ 0 then req.timeoutS else ctx.limits.stopTimeoutS
        let snapshot ← DockerBackend.perform ctx.backend verb req.name timeout
        let container ← ofExcept (info ctx snapshot)
        replyOk (.action { container })) := by
  have hrequire : (requireName req.name : Proc σ String) = pure req.name := if_neg hname
  have hparse : (parse (actionCls verb) (Except.ok req) : Proc σ ActionRequest) = pure req := rfl
  rw [handleAction, h, hparse, pure_bind, hrequire, pure_bind]

theorem handleRemove_of_decoded {ctx : Context σ} {raw : Bytes} {req : RemoveContainerRequest}
    (h : ctx.pb.removeContainerRequest raw = .ok req) (hname : req.name ≠ "") :
    handleRemove ctx raw =
      if !(ctx.guard.decideRemove req.name).allowed then
        replyErr (ctx.guard.decideRemove req.name).reason (ctx.guard.decideRemove req.name).code
      else (do
        let (snapshot, wasRunning) ←
          DockerBackend.remove ctx.backend req.name req.force req.removeVolumes
        replyOk (.remove { name := snapshot.name, id := snapshot.id, forceApplied := wasRunning })) := by
  have hrequire : (requireName req.name : Proc σ String) = pure req.name := if_neg hname
  have hparse : (parse "RemoveContainerRequest" (Except.ok req) : Proc σ RemoveContainerRequest) =
    pure req := rfl
  rw [handleRemove, h, hparse, pure_bind, hrequire, pure_bind]

theorem adds_handleAction (ctx : Context σ) (verb : Verb) (raw : Bytes) (w : World σ) :
    Adds World.mutations (handleAction verb ctx raw) w
      ((target ctx (.act verb) raw w.daemon).toList.map (Prod.mk (.act verb))) := by
  unfold handleAction
  cases hreq : actionRequest ctx.pb verb raw with
  | error e =>
    have ht : target ctx (.act verb) raw w.daemon = none := by
      simp [target, carried, hreq, Except.toOption]
    rw [ht]
    exact .bind_error (run_throw _ w) (.throw _)
  | ok req =>
    have ht : target ctx (.act verb) raw w.daemon =
        if req.name = "" || !(ctx.guard.decide req.name "" verb.name).allowed then none
        else (resolved ctx.backend req.name w.daemon).filter (goesAhead (.act verb) false) := by
      simp [target, carried, hreq, Except.toOption, ControlGuard.letsThrough]
    apply Adds.bind_ok (run_pure req w) (.pure req)
    rw [ht, apply_ite Option.toList, apply_ite (List.map _)]
    refine adds_decided (fun name => ctx.guard.decide name "" verb.name)
      (Adds.then_nothing DockerBackend.adds_perform fun s w => ?_)
    exact Adds.then_nothing adds_ofExcept fun _ _ => adds_replyOk

theorem adds_handleRemove (ctx : Context σ) (raw : Bytes) (w : World σ) :
    Adds World.mutations (handleRemove ctx raw) w
      ((target ctx .remove raw w.daemon).toList.map (Prod.mk .remove)) := by
  unfold handleRemove
  cases hreq : ctx.pb.removeContainerRequest raw with
  | error e =>
    have ht : target ctx .remove raw w.daemon = none := by
      simp [target, carried, hreq, Except.toOption]
    rw [ht]
    exact .bind_error (run_throw _ w) (.throw _)
  | ok req =>
    have ht : target ctx .remove raw w.daemon =
        if req.name = "" || !(ctx.guard.decideRemove req.name).allowed then none
        else (resolved ctx.backend req.name w.daemon).filter (goesAhead .remove req.force) := by
      simp [target, carried, hreq, Except.toOption, ControlGuard.letsThrough]
    apply Adds.bind_ok (run_pure req w) (.pure req)
    rw [ht, apply_ite Option.toList, apply_ite (List.map _)]
    exact adds_decided (fun name => ctx.guard.decideRemove name)
      (Adds.then_nothing DockerBackend.adds_remove fun _ _ => adds_replyOk)

theorem adds_guarded {handler : Bytes → Proc σ Unit} {raw : Bytes} {w : World σ}
    {l : List (Mutation × Container)} (h : Adds World.mutations (handler raw) w l) :
    Adds World.mutations (guarded handler raw) w l := by
  refine .tryCatch (fun e s => ?_) h
  cases e <;> rfl

/-- A request changes its target and nothing else. -/
theorem performed_eq (ctx : Context σ) (m : Mutation) (raw : Bytes) (d : σ) (t : Int) :
    performed ctx m raw d t = (target ctx m raw d).toList.map (Prod.mk m) := by
  have hadds : Adds World.mutations (build ctx m.procedure raw) { daemon := d, timeNs := t }
      ((target ctx m raw d).toList.map (Prod.mk m)) := by
    cases m with
    | act verb => cases verb <;> exact adds_guarded (adds_handleAction ..)
    | remove => exact adds_guarded (adds_handleRemove ..)
  exact hadds

theorem mem_performed {ctx : Context σ} {m m' : Mutation} {raw : Bytes} {d : σ} {t : Int}
    {c : Container} :
    (m', c) ∈ performed ctx m raw d t ↔
      m' = m ∧ ∃ name force, carried ctx.pb m raw = some (name, force) ∧ name ≠ "" ∧
        ctx.guard.letsThrough m name = true ∧ resolved ctx.backend name d = some c ∧
        goesAhead m force c = true := by
  have ht : c ∈ target ctx m raw d ↔ ∃ name force, carried ctx.pb m raw = some (name, force) ∧
      name ≠ "" ∧ ctx.guard.letsThrough m name = true ∧ resolved ctx.backend name d = some c ∧
      goesAhead m force c = true := by
    unfold target
    rcases carried ctx.pb m raw with - | ⟨name, force⟩
    · simp
    · cases force <;> simp [and_assoc]
  rw [performed_eq, ← ht]
  simp only [List.mem_map, Option.mem_toList, Prod.mk.injEq]
  constructor
  · rintro ⟨c', hc', rfl, rfl⟩
    exact ⟨rfl, hc'⟩
  · rintro ⟨rfl, hc⟩
    exact ⟨c, hc, rfl, rfl⟩

end KeelsonDocker
