import KeelsonDocker.Verify.Host
import KeelsonDocker.Verify.Replies

/-!
# What an action's reply says about its effect

An action is three calls to the daemon under one translation of errors: look the container up, perform the
verb, re-read it. The reply tells what happened (`Truthful`) exactly when nothing after the verb fails, and
a 404 to the verb itself means that the container is gone (`truthful_iff`).
-/

namespace KeelsonDocker

open Effect

variable {σ : Type}

/-- What stands behind the daemon's answers. -/
structure Behind (E : Engine σ) where
  /-- There is a container of this name. -/
  named : String → σ → Prop
  /-- The container has not been removed. -/
  live : Container → σ → Prop
  /-- Asked in this state, the daemon carries the verb out, whatever it answers. -/
  carriesOut : Verb → Container → Option Int → σ → Prop
  missing : ∀ {name d text}, (E.get name d).1 = .error (.docker .notFound text) → ¬ named name d
  done : ∀ {verb c timeout d}, (E.act verb c timeout d).1 = .ok () → carriesOut verb c timeout d
  /-- docker-py raises none of the package's own exceptions. -/
  foreign_fromEnv : ∀ {d code text}, (E.fromEnv d).1 ≠ .error (.backend code text)
  foreign_get : ∀ {name d code text}, (E.get name d).1 ≠ .error (.backend code text)
  foreign_act : ∀ {verb c timeout d code text},
    (E.act verb c timeout d).1 ≠ .error (.backend code text)

/-- The name and the timeout of the call, when a request is decoded and let through. -/
def asks (ctx : Context σ) (verb : Verb) (raw : Bytes) : Option (String × Option Int) :=
  match actionRequest ctx.pb verb raw with
  | .error _ => none
  | .ok req =>
    if req.name = "" || !(ctx.guard.decide req.name "" verb.name).allowed then none
    else
      let timeout : Int := if req.timeoutS ≠ 0 then req.timeoutS else ctx.limits.stopTimeoutS
      some (req.name, if verb = .start then none else some timeout)

/-- The lookup finds the container, and leaves the daemon in this state. -/
structure Found (E : Engine σ) (name : String) (d : σ) (c : Container) (d' : σ) : Prop where
  reached : ∃ u, (E.fromEnv d).1 = .ok u
  get : (E.get name (E.fromEnv d).2).1 = .ok c
  state : (E.get name (E.fromEnv d).2).2 = d'

variable {ctx : Context σ}

/-- The daemon carries out the verb of a request. -/
def CarriedOut (truth : Behind ctx.backend) (verb : Verb) (raw : Bytes) (d : σ) : Prop :=
  ∃ name timeout c d', asks ctx verb raw = some (name, timeout) ∧ Found ctx.backend name d c d' ∧
    truth.carriesOut verb c timeout d'

/-- The container a request names existed when the action was attempted. -/
def Existed (truth : Behind ctx.backend) (verb : Verb) (raw : Bytes) (d : σ) : Prop :=
  ∃ name timeout, asks ctx verb raw = some (name, timeout) ∧
    match (ctx.backend.get name (ctx.backend.fromEnv d).2).1 with
    | .ok c => truth.live c (ctx.backend.get name (ctx.backend.fromEnv d).2).2
    | .error _ => truth.named name (ctx.backend.fromEnv d).2

def Verb.procedure : Verb → Procedure
  | start => .start
  | stop => .stop
  | restart => .restart

/-- The caller gets an error: the handler's, or that of `serve_rpc` for what it raises. -/
def Fails (ctx : Context σ) (verb : Verb) (raw : Bytes) (d : σ) (t : Int) : Prop :=
  (∃ e w, build ctx verb.procedure raw { daemon := d, timeNs := t } = .error e w) ∨
    ∃ description code, .err description code ∈ replies ctx verb.procedure raw d t

/-- The reply tells what happened. -/
structure Truthful (truth : Behind ctx.backend) (verb : Verb) (raw : Bytes) (d : σ) (t : Int) :
    Prop where
  effect : CarriedOut truth verb raw d → ¬ Fails ctx verb raw d t
  notFound : (∃ description, .err description .notFound ∈ replies ctx verb.procedure raw d t) →
    ¬ Existed truth verb raw d

/-- The verb is answered with success, and so is the re-read, with what can be put into a reply. -/
def Confirmed (ctx : Context σ) (verb : Verb) (c : Container) (timeout : Option Int) (d : σ) : Prop :=
  (ctx.backend.act verb c timeout d).1 = .ok () ∧
    ∃ c' s i, (ctx.backend.reload c (ctx.backend.act verb c timeout d).2).1 = .ok c' ∧
      DockerBackend.snapshot c' = .ok s ∧ info ctx s = .ok i

/-- The daemon's answers tell what happened. -/
structure Conveyed (truth : Behind ctx.backend) (verb : Verb) (raw : Bytes) (d : σ) : Prop where
  effect : ∀ {name timeout c d'}, asks ctx verb raw = some (name, timeout) →
    Found ctx.backend name d c d' → truth.carriesOut verb c timeout d' →
    Confirmed ctx verb c timeout d'
  notFound : ∀ {name timeout c d' text}, asks ctx verb raw = some (name, timeout) →
    Found ctx.backend name d c d' →
    (ctx.backend.act verb c timeout d').1 = .error (.docker .notFound text) → ¬ truth.live c d'

/-! ### The run of an action -/

theorem request_eq_ok {c : Call} {f : σ → Except Exn α × σ} {w w' : World σ} {a : α} :
    request c f w = .ok a w' ↔ (f w.daemon).1 = .ok a ∧ w' = w.asked c (f w.daemon).2 := by
  cases h : (f w.daemon).1 with
  | ok b =>
    rw [request_ok h]
    exact ⟨fun h' => by cases h'; exact ⟨rfl, rfl⟩, fun ⟨h', hw⟩ => by cases h'; rw [hw]⟩
  | error e =>
    rw [request_error h]
    exact ⟨nofun, fun ⟨h', _⟩ => nomatch h'⟩

namespace DockerBackend

/-- The verb and the re-read, once the container is found. -/
def acting (E : Engine σ) (verb : Verb) (timeout : Option Int) (c : Container) :
    Proc σ ContainerSnapshot := do
  request (.act verb c timeout) (E.act verb c timeout)
  let c ← request (.reload c) (E.reload c)
  ofExcept (snapshot c)

/-- What `translating` makes of an exception. -/
def translated (what name : String) : Exn → Exn
  | .docker kind text => translate kind text what name
  | e => e

variable {E : Engine σ} {name : String} {w : World σ}

theorem translating_error {what : String} {x : Proc σ α} {e : Exn} {w' : World σ}
    (h : x w = .error e w') : translating what name x w = .error (translated what name e) w' := by
  apply (run_tryCatch_error h).trans
  cases e <;> rfl

theorem translating_eq_ok {what : String} {x : Proc σ α} {a : α} {w' : World σ} :
    translating what name x w = .ok a w' ↔ x w = .ok a w' :=
  run_tryCatch_eq_ok fun e s => by cases e <;> exact nofun

variable {verb : Verb} {timeout : Option Int} {c : Container} {d' : σ}

/-- From a lookup that finds the container, a procedure is what it does with that container. -/
theorem lookup_of_found (h : Found E name w.daemon c d') : ∃ w', w'.daemon = d' ∧
    w'.replies = w.replies ∧ ∀ {α : Type} (what : String) (f : Container → Proc σ α),
      translating what name (do client E; let c ← request (.get name) (E.get name); f c) w =
        translating what name (f c) w' := by
  obtain ⟨⟨u, hreach⟩, hget, rfl⟩ := h
  refine ⟨(w.asked .fromEnv (E.fromEnv w.daemon).2).asked (.get name)
    (E.get name (E.fromEnv w.daemon).2).2, rfl, rfl, fun what f => ?_⟩
  have hbody : (do client E; let c ← request (.get name) (E.get name); f c) w = f c
      ((w.asked .fromEnv (E.fromEnv w.daemon).2).asked (.get name)
        (E.get name (E.fromEnv w.daemon).2).2) :=
    (run_bind_ok (client_ok hreach)).trans (run_bind_ok (request_ok hget))
  unfold translating
  show EStateM.tryCatch _ _ w = EStateM.tryCatch _ _ _
  unfold EStateM.tryCatch
  rw [hbody]

/-- From a lookup that finds the container, an action is the verb and the re-read. -/
theorem act_of_found (h : Found E name w.daemon c d') : ∃ w', w'.daemon = d' ∧
    w'.replies = w.replies ∧ act E name verb timeout w =
      translating verb.name name (acting E verb timeout c) w' := by
  obtain ⟨w', hd', hreplies, hlookup⟩ := lookup_of_found h
  exact ⟨w', hd', hreplies, hlookup verb.name (acting E verb timeout)⟩

theorem acting_eq_ok {s : ContainerSnapshot} {w' : World σ}
    (h : acting E verb timeout c w = .ok s w') : (E.act verb c timeout w.daemon).1 = .ok () ∧
      ∃ c', (E.reload c (E.act verb c timeout w.daemon).2).1 = .ok c' ∧ snapshot c' = .ok s := by
  obtain ⟨u, w₁, hact, h⟩ := run_bind_eq_ok.mp h
  obtain ⟨c', w₂, hreload, h⟩ := run_bind_eq_ok.mp h
  obtain ⟨hok, rfl⟩ := request_eq_ok.mp hact
  obtain ⟨hok', rfl⟩ := request_eq_ok.mp hreload
  exact ⟨hok, c', hok', (ofExcept_eq_ok.mp h).1⟩

theorem acting_of_ok {c' : Container} {s : ContainerSnapshot}
    (hact : (E.act verb c timeout w.daemon).1 = .ok ())
    (hreload : (E.reload c (E.act verb c timeout w.daemon).2).1 = .ok c')
    (hs : snapshot c' = .ok s) :
    ∃ w', acting E verb timeout c w = .ok s w' ∧ w'.replies = w.replies := by
  have hlast := request_ok (c := .reload c)
    (w := w.asked (.act verb c timeout) (E.act verb c timeout w.daemon).2) hreload
  have hend : ofExcept (snapshot c') = (pure s : Proc σ ContainerSnapshot) := by
    rw [hs]
    rfl
  refine ⟨(w.asked (.act verb c timeout) (E.act verb c timeout w.daemon).2).asked (.reload c)
    (E.reload c (E.act verb c timeout w.daemon).2).2, ?_, rfl⟩
  refine (run_bind_ok (request_ok hact)).trans ((run_bind_ok hlast).trans ?_)
  rw [hend, run_pure]
  rfl

theorem translated_eq_notFound {what message : String} {e : Exn}
    (h : translated what name e = .backend .notFound message) :
    (∃ text, e = .docker .notFound text) ∨ ∃ code text, e = .backend code text := by
  cases e with
  | docker kind text =>
    cases kind with
    | notFound => exact .inl ⟨text, rfl⟩
    | apiError | dockerException => cases h
  | backend code text => exact .inr ⟨code, text, rfl⟩
  | _ => cases h

/-- A daemon that cannot be reached is `UNAVAILABLE`. -/
theorem act_of_unreached {e : Exn} (h : (E.fromEnv w.daemon).1 = .error e) :
    ∃ e' w', act E name verb timeout w = .error e' w' ∧
      ∀ message, e' = .backend .notFound message → ∃ code text, e = .backend code text := by
  have hclient := run_tryCatch_error (f := fun
    | .docker _ text => throw (.backend .unavailable ("cannot reach the container runtime: " ++ text))
    | e => throw e) (request_error (c := .fromEnv) h)
  cases e with
  | docker kind text =>
    exact ⟨_, _, translating_error (run_bind_error hclient), fun message h => nomatch h⟩
  | backend code text =>
    exact ⟨_, _, translating_error (run_bind_error hclient), fun message _ => ⟨code, text, rfl⟩⟩
  | _ => exact ⟨_, _, translating_error (run_bind_error hclient), fun message h => nomatch h⟩

theorem act_of_lookup_error {u : Unit} {e : Exn} (hreach : (E.fromEnv w.daemon).1 = .ok u)
    (hget : (E.get name (E.fromEnv w.daemon).2).1 = .error e) :
    ∃ w', act E name verb timeout w = .error (translated verb.name name e) w' := by
  have hlookup := request_error (c := .get name) (w := w.asked .fromEnv (E.fromEnv w.daemon).2) hget
  exact ⟨_, translating_error ((run_bind_ok (client_ok hreach)).trans (run_bind_error hlookup))⟩

theorem act_of_verb_error {e : Exn} (hfound : Found E name w.daemon c d')
    (h : (E.act verb c timeout d').1 = .error e) :
    ∃ w', act E name verb timeout w = .error (translated verb.name name e) w' := by
  obtain ⟨w', hd', -, hact⟩ := act_of_found hfound
  rw [← hd'] at h
  rw [hact]
  exact ⟨_, translating_error (run_bind_error (request_error h))⟩

end DockerBackend

/-! ### The run of the handler -/

theorem build_action (ctx : Context σ) (verb : Verb) (raw : Bytes) :
    build ctx verb.procedure raw = guarded (handleAction verb ctx) raw := by
  cases verb <;> rfl

/-- The handler of a request that is decoded and let through. -/
theorem handleAction_eq {verb : Verb} {raw : Bytes} {name : String} {timeout : Option Int}
    (h : asks ctx verb raw = some (name, timeout)) : handleAction verb ctx raw = (do
      let snapshot ← DockerBackend.act ctx.backend name verb timeout
      let container ← ofExcept (info ctx snapshot)
      replyOk (.action { container })) := by
  unfold asks at h
  split at h
  · cases h
  · rename_i req hreq
    split at h
    · cases h
    · rename_i hpass
      obtain ⟨rfl, rfl⟩ := Prod.mk.inj (Option.some.inj h)
      simp only [Bool.or_eq_true, decide_eq_true_eq, not_or, Bool.not_eq_true', Bool.not_eq_false]
        at hpass
      obtain ⟨hname, hallowed⟩ := hpass
      rw [handleAction_of_decoded hreq hname]
      simp only [hallowed, Bool.not_true, Bool.false_eq_true, if_false]
      cases verb <;> rfl

section

variable {verb : Verb} {raw : Bytes} {d d' : σ} {t : Int} {name : String} {timeout : Option Int}
  {c : Container}

/-- What the handler raises reaches the caller as an error. -/
theorem fails_of_error {e : Exn} {w : World σ}
    (h : handleAction verb ctx raw { daemon := d, timeNs := t } = .error e w) :
    Fails ctx verb raw d t := by
  have hrun : guarded (handleAction verb ctx) raw { daemon := d, timeNs := t } = _ :=
    run_tryCatch_error h
  unfold Fails replies
  rw [build_action, after, hrun]
  cases e with
  | backend code message => exact .inr ⟨message, code, by simp [replyErr, World.answer]⟩
  | _ => exact .inl ⟨_, _, rfl⟩

theorem not_fails_of_ok (response : Response) {w : World σ} (hw : w.replies = [.ok response])
    (h : handleAction verb ctx raw { daemon := d, timeNs := t } = .ok () w) :
    ¬ Fails ctx verb raw d t := by
  have hrun : build ctx verb.procedure raw { daemon := d, timeNs := t } = .ok () w := by
    rw [build_action]
    exact run_tryCatch_ok h
  rintro (⟨e, w', he⟩ | ⟨description, code, hmem⟩)
  · cases hrun.symm.trans he
  · rw [replies, after_ok hrun, hw] at hmem
    simp at hmem

/-- Of a request whose container is found, the handler reports no error exactly when the daemon confirms
the verb. -/
theorem not_fails_iff (hasks : asks ctx verb raw = some (name, timeout))
    (hfound : Found ctx.backend name d c d') :
    ¬ Fails ctx verb raw d t ↔ Confirmed ctx verb c timeout d' := by
  obtain ⟨w', hd', hreplies, hact⟩ := DockerBackend.act_of_found
    (w := { daemon := d, timeNs := t }) hfound
  constructor
  · intro h
    cases hrun : handleAction verb ctx raw { daemon := d, timeNs := t } with
    | error e w => exact absurd (fails_of_error hrun) h
    | ok u w =>
      rw [handleAction_eq hasks] at hrun
      obtain ⟨s, w₁, hs, hrun⟩ := run_bind_eq_ok.mp hrun
      obtain ⟨i, w₂, hi, -⟩ := run_bind_eq_ok.mp hrun
      rw [hact, DockerBackend.translating_eq_ok] at hs
      obtain ⟨hverb, c', hreload, hsnapshot⟩ := DockerBackend.acting_eq_ok hs
      rw [hd'] at hverb hreload
      exact ⟨hverb, c', s, i, hreload, hsnapshot, (ofExcept_eq_ok.mp hi).1⟩
  · rintro ⟨hverb, c', s, i, hreload, hsnapshot, hi⟩
    rw [← hd'] at hverb hreload
    obtain ⟨w₁, hrun, hw₁⟩ := DockerBackend.acting_of_ok hverb hreload hsnapshot
    have hs : DockerBackend.translating verb.name name
        (DockerBackend.acting ctx.backend verb timeout c) w' = .ok s w₁ :=
      DockerBackend.translating_eq_ok.mpr hrun
    rw [← hact] at hs
    have hinfo : ofExcept (info ctx s) = (pure i : Proc σ ContainerInfo) := by
      rw [hi]
      rfl
    refine not_fails_of_ok (.action ⟨i⟩) (w := w₁.answer (.ok (.action ⟨i⟩))) ?_ ?_
    · simp [World.answer, hw₁, hreplies]
    · rw [handleAction_eq hasks]
      apply (run_bind_ok hs).trans
      rw [hinfo, pure_bind]
      rfl

theorem replies_of_act {w w' : World σ} {e : Exn}
    (h : DockerBackend.act ctx.backend name verb timeout w = .error e w') :
    w'.replies = w.replies := by
  have hcalls := DockerBackend.callsAppend_replies (σ := σ) (P := fun _ => False)
  have happends : Appends World.replies (fun _ => False)
      (DockerBackend.act ctx.backend name verb timeout) :=
    DockerBackend.appends_translating
      (.bind (DockerBackend.appends_client hcalls) fun _ _ _ _ => DockerBackend.appends_acting hcalls)
  obtain ⟨l, hl, hnone⟩ := happends w
  rw [Adds, after_error h, List.eq_nil_iff_forall_not_mem.mpr hnone, List.append_nil] at hl
  exact hl

/-- The handler replies with the exception of the backend. -/
theorem notFound_iff_of_act {e : Exn} {w : World σ}
    (hasks : asks ctx verb raw = some (name, timeout))
    (h : DockerBackend.act ctx.backend name verb timeout { daemon := d, timeNs := t } = .error e w) :
    (∃ description, .err description .notFound ∈ replies ctx verb.procedure raw d t) ↔
      ∃ message, e = .backend .notFound message := by
  have hrun : guarded (handleAction verb ctx) raw { daemon := d, timeNs := t } = _ :=
    run_tryCatch_error (by rw [handleAction_eq hasks]; exact run_bind_error h)
  have hw : w.replies = [] := replies_of_act h
  rw [replies, build_action, after, hrun]
  cases e <;> simp [replyErr, World.answer, hw, eq_comm]

/-- A runtime that is not reached is never reported as a missing container. -/
theorem Behind.reached_of_notFound (truth : Behind ctx.backend)
    (hasks : asks ctx verb raw = some (name, timeout))
    (hreply : ∃ description, .err description .notFound ∈ replies ctx verb.procedure raw d t) :
    ∃ u, (ctx.backend.fromEnv d).1 = .ok u := by
  cases hreach : (ctx.backend.fromEnv d).1 with
  | ok u => exact ⟨u, rfl⟩
  | error e =>
    obtain ⟨e', w, hw, hforeign⟩ := DockerBackend.act_of_unreached
      (w := { daemon := d, timeNs := t }) hreach
    obtain ⟨message, rfl⟩ := (notFound_iff_of_act hasks hw).mp hreply
    obtain ⟨code, text, rfl⟩ := hforeign message rfl
    exact absurd hreach truth.foreign_fromEnv

/-- A lookup that fails is reported as a missing container only where there is none. -/
theorem Behind.unnamed_of_notFound (truth : Behind ctx.backend) {u : Unit} {e : Exn}
    (hasks : asks ctx verb raw = some (name, timeout)) (hreach : (ctx.backend.fromEnv d).1 = .ok u)
    (hget : (ctx.backend.get name (ctx.backend.fromEnv d).2).1 = .error e)
    (hreply : ∃ description, .err description .notFound ∈ replies ctx verb.procedure raw d t) :
    ¬ truth.named name (ctx.backend.fromEnv d).2 := by
  obtain ⟨w, hw⟩ := DockerBackend.act_of_lookup_error (w := { daemon := d, timeNs := t }) hreach hget
  obtain ⟨message, he⟩ := (notFound_iff_of_act hasks hw).mp hreply
  rcases DockerBackend.translated_eq_notFound he with ⟨text, rfl⟩ | ⟨code, text, rfl⟩
  · exact truth.missing hget
  · exact absurd hget truth.foreign_get

/-- A verb that fails is reported as a missing container only if the daemon says so. -/
theorem Behind.missing_of_notFound (truth : Behind ctx.backend) {e : Exn}
    (hasks : asks ctx verb raw = some (name, timeout)) (hfound : Found ctx.backend name d c d')
    (hact : (ctx.backend.act verb c timeout d').1 = .error e)
    (hreply : ∃ description, .err description .notFound ∈ replies ctx verb.procedure raw d t) :
    ∃ text, e = .docker .notFound text := by
  obtain ⟨w, hw⟩ := DockerBackend.act_of_verb_error (w := { daemon := d, timeNs := t }) hfound hact
  obtain ⟨message, he⟩ := (notFound_iff_of_act hasks hw).mp hreply
  rcases DockerBackend.translated_eq_notFound he with ⟨text, rfl⟩ | ⟨code, text, rfl⟩
  · exact ⟨text, rfl⟩
  · exact absurd hact truth.foreign_act

end

/-- The reply tells what happened exactly when the daemon's answers do. -/
theorem truthful_iff (truth : Behind ctx.backend) (verb : Verb) (raw : Bytes) (d : σ) (t : Int) :
    Truthful truth verb raw d t ↔ Conveyed truth verb raw d := by
  constructor
  · intro h
    refine ⟨fun hasks hfound heffect => ?_, fun {name timeout c d' text} hasks hfound hact => ?_⟩
    · exact (not_fails_iff hasks hfound).mp (h.effect ⟨_, _, _, _, hasks, hfound, heffect⟩)
    · obtain ⟨w, hw⟩ := DockerBackend.act_of_verb_error (w := { daemon := d, timeNs := t }) hfound hact
      have hreply := (notFound_iff_of_act hasks hw).mpr ⟨_, rfl⟩
      intro hlive
      refine h.notFound hreply ⟨name, timeout, hasks, ?_⟩
      obtain ⟨-, hget, rfl⟩ := hfound
      rw [hget]
      exact hlive
  · intro h
    refine ⟨?_, ?_⟩
    · rintro ⟨name, timeout, c, d', hasks, hfound, heffect⟩
      exact (not_fails_iff hasks hfound).mpr (h.effect hasks hfound heffect)
    · rintro hreply ⟨name, timeout, hasks, hexisted⟩
      obtain ⟨u, hreach⟩ := truth.reached_of_notFound hasks hreply
      cases hget : (ctx.backend.get name (ctx.backend.fromEnv d).2).1 with
      | error e =>
        rw [hget] at hexisted
        exact truth.unnamed_of_notFound hasks hreach hget hreply hexisted
      | ok c =>
        rw [hget] at hexisted
        have hfound : Found ctx.backend name d c _ := ⟨⟨u, hreach⟩, hget, rfl⟩
        cases hact : (ctx.backend.act verb c timeout
            (ctx.backend.get name (ctx.backend.fromEnv d).2).2).1 with
        | ok _ =>
          -- The verb was carried out, so that no error is reported at all.
          have hconfirmed := h.effect hasks hfound (truth.done hact)
          obtain ⟨description, hmem⟩ := hreply
          exact (not_fails_iff hasks hfound).mpr hconfirmed (.inr ⟨_, _, hmem⟩)
        | error e =>
          obtain ⟨text, rfl⟩ := truth.missing_of_notFound hasks hfound hact hreply
          exact h.notFound hasks hfound hact hexisted

/-! ### A container that is removed when it stops -/

/-- Every reply tells what happened, whatever the daemon does between the calls. -/
def TellsWhatHappened : Prop :=
  ∀ (ctx : Context (List Container)) (truth : Behind ctx.backend) (verb : Verb) (raw : Bytes)
    (d : List Container) (t : Int), Truthful truth verb raw d t

namespace AutoRemove

/-- `host` with containers that were started with `--rm`. -/
def engine : Engine (List Container) :=
  { host with
    act := fun verb c _ cs => (.ok (), if verb = .stop then cs.filter (·.id != c.id) else cs)
    reload := fun c cs => (lookUp cs c.id, cs) }

def responder : Context (List Container) where
  backend := engine
  guard := { controlEnabled := true, allowGlobs := ["*"] }
  pb := wire

def truth : Behind responder.backend where
  named name cs := (lookUp cs name).isOk
  live c cs := c ∈ cs
  carriesOut _ _ _ _ := True
  missing {name cs text} h := by
    have hget : lookUp cs name = .error (.docker .notFound text) := h
    rw [hget]
    exact nofun
  done _ := trivial
  foreign_fromEnv := nofun
  foreign_get {name cs code text} h := by
    have hget : lookUp cs name = .error (.backend code text) := h
    unfold lookUp at hget
    split at hget
    · cases hget
    · split at hget <;> cases hget
  foreign_act := nofun

theorem not_tellsWhatHappened : ¬ TellsWhatHappened := by
  intro h
  have hfound : Found responder.backend "zenoh-router" [router] router [router] := ⟨⟨(), rfl⟩, rfl, rfl⟩
  have hasks : asks responder .stop (writeName "zenoh-router") = some ("zenoh-router", some 10) := by
    decide +kernel
  have hreply : Reply.err "no such container: zenoh-router" .notFound ∈
      replies responder .stop (writeName "zenoh-router") [router] 0 := by
    have hlast : replies responder .stop (writeName "zenoh-router") [router] 0 =
        [.err "no such container: zenoh-router" .notFound] := rfl
    rw [hlast]
    exact List.mem_singleton.mpr rfl
  exact (h responder truth .stop _ [router] 0).effect ⟨_, _, _, _, hasks, hfound, trivial⟩
    (.inr ⟨_, _, hreply⟩)

end AutoRemove

end KeelsonDocker
