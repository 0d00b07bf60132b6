import KeelsonDocker.AppRun

/-!
# From the flags to the bus

Flags that contradict each other never get as far as the bus, and what is served has the guards the flags
stand for (`AppHost.served_guards`). Whatever is raised on the way, everything that was entered is left again,
in the reverse order, and only announced subjects are published (`AppHost.lifetimes`).
-/

namespace KeelsonDocker

open Effect Scope

/-- Flags that do not contradict each other. -/
structure AppArgs.Coherent (args : AppArgs) : Prop where
  control : args.allowControl = true → args.allow ≠ []
  remove : args.allowRemove ≠ [] → args.allowControl = true
  root : App.rootOf args = none → ∀ flag ∈ App.platformFlags args, flag.2 = false
  write : args.allowWrite = true → args.allowPath ≠ []
  delete : args.allowDelete ≠ [] → args.allowWrite = true
  git : args.allowGit = true → args.allowWrite = true
  push : args.allowPush = true → args.allowGit = true

namespace App

variable {args : AppArgs}

theorem refuse_eq_ok {bad : Bool} {message : String} : refuse bad message = .ok () ↔ bad = false := by
  cases bad <;> simp [refuse]

theorem forM_refuse_eq_ok {flags : List (String × Bool)} {message : String × Bool → String} :
    (flags.forM fun flag => refuse flag.2 (message flag)) = .ok () ↔
      ∀ flag ∈ flags, flag.2 = false := by
  induction flags with
  | nil => exact ⟨fun _ _ h => (nomatch h), fun _ => rfl⟩
  | cons flag flags ih =>
    rw [List.forall_mem_cons, ← ih, ← refuse_eq_ok]
    show (refuse flag.2 (message flag) >>= fun _ => _) = .ok () ↔ _
    rw [bind_eq_ok]
    exact ⟨fun ⟨_, h, hrest⟩ => ⟨h, hrest⟩, fun ⟨h, hrest⟩ => ⟨(), h, hrest⟩⟩

theorem refuse_bind_eq_ok {bad : Bool} {message : String} {x : Except AppExn Unit} :
    (refuse bad message >>= fun _ => x) = .ok () ↔ bad = false ∧ x = .ok () := by
  cases bad with
  | false => exact ⟨fun h => ⟨rfl, h⟩, fun h => h.2⟩
  | true => exact ⟨nofun, fun h => nomatch h.1⟩

theorem checkRoot_eq_ok :
    checkRoot args = .ok () ↔ (rootOf args = none → ∀ flag ∈ platformFlags args, flag.2 = false) := by
  unfold checkRoot
  split
  · rename_i hroot
    rw [forM_refuse_eq_ok]
    exact ⟨fun h _ => h, fun h => h hroot⟩
  · rename_i hroot
    exact ⟨fun _ h => absurd h hroot, fun _ => rfl⟩

theorem checkArgs_eq_ok : checkArgs args = .ok () ↔ args.Coherent := by
  unfold checkArgs
  rw [refuse_bind_eq_ok, refuse_bind_eq_ok, bind_eq_ok]
  constructor
  · intro ⟨hcontrol, hremove, _, hroot, hrest⟩
    rw [refuse_bind_eq_ok, refuse_bind_eq_ok, refuse_bind_eq_ok, refuse_eq_ok] at hrest
    obtain ⟨hwrite, hdelete, hgit, hpush⟩ := hrest
    refine ⟨?_, ?_, checkRoot_eq_ok.mp hroot, ?_, ?_, ?_, ?_⟩
    all_goals simp_all
  · intro h
    refine ⟨?_, ?_, (), checkRoot_eq_ok.mpr h.root, ?_⟩
    · simpa using h.control
    · simpa using h.remove
    · rw [refuse_bind_eq_ok, refuse_bind_eq_ok, refuse_bind_eq_ok, refuse_eq_ok]
      refine ⟨?_, ?_, ?_, ?_⟩
      · simpa using h.write
      · simpa using h.delete
      · simpa using h.git
      · simpa using h.push

/-- What `parser.error` raises. -/
def IsUsage (e : AppExn) : Prop := ∃ message, e = .usage message

theorem wp_refuse {bad : Bool} {message : String} {Q : Unit → Prop} (h : Q ()) :
    wp IsUsage (refuse bad message) Q := by
  cases bad with
  | false => exact h
  | true => exact ⟨message, rfl⟩

theorem wp_checkRoot {Q : Unit → Prop} (h : Q ()) : wp IsUsage (checkRoot args) Q := by
  unfold checkRoot
  split
  · induction platformFlags args with
    | nil => exact h
    | cons flag flags ih => exact wp_bind.mpr (wp_refuse ih)
  · exact h

/-- The checks raise nothing but `parser.error`. -/
theorem wp_checkArgs : wp IsUsage (checkArgs args) fun _ => True := by
  unfold checkArgs
  apply wp_bind.mpr (wp_refuse _)
  apply wp_bind.mpr (wp_refuse _)
  apply wp_bind.mpr (wp_checkRoot _)
  apply wp_bind.mpr (wp_refuse _)
  apply wp_bind.mpr (wp_refuse _)
  apply wp_bind.mpr (wp_refuse _)
  exact wp_refuse trivial

end App

/-! ### What is served -/

/-- A guard that was thought through: what may be controlled is named, and the responder knows itself. -/
structure ControlGuard.Sound (guard : ControlGuard) : Prop where
  control : guard.controlEnabled = true → guard.allowGlobs ≠ [] ∧ guard.selfIdentity ≠ ∅
  remove : guard.removeGlobs ≠ [] → guard.controlEnabled = true

/-- What may be written is named, and nothing is deleted, committed or pushed where nothing may be written. -/
structure FileGuard.Sound (guard : FileGuard) : Prop where
  write : guard.writeEnabled = true → guard.writeGlobs ≠ []
  delete : guard.deleteGlobs ≠ [] → guard.writeEnabled = true
  git : guard.gitEnabled = true → guard.writeEnabled = true
  push : guard.pushEnabled = true → guard.gitEnabled = true

theorem AppArgs.Coherent.fileGuard {args : AppArgs} (h : args.Coherent) : (App.buildFileGuard args).Sound :=
  ⟨h.write, h.delete, h.git, h.push⟩

theorem AppArgs.Coherent.guard {σ : Type} {E : Engine σ} {args : AppArgs} {proc : ProcSelf} {d : σ}
    {guard : ControlGuard} (h : args.Coherent) (hguard : buildGuard E args.toArgs proc d = some guard) :
    guard.Sound ∧ guard.controlEnabled = args.allowControl ∧
      (args.allowControl = true → guard.allowGlobs = args.allow ∧ guard.removeGlobs = args.allowRemove) ∧
      guard.removeEnabled = !args.allowRemove.isEmpty := by
  unfold buildGuard at hguard
  cases hcontrol : args.allowControl with
  | false =>
    have hnot : (!args.allowControl) = true := by rw [hcontrol]; rfl
    rw [if_pos hnot] at hguard
    cases hguard
    refine ⟨⟨nofun, fun hne => absurd rfl hne⟩, rfl, nofun, ?_⟩
    have hremove : args.allowRemove = [] := by
      by_contra hne
      have hcontradiction := h.remove hne
      rw [hcontrol] at hcontradiction
      cases hcontradiction
    rw [hremove]
    rfl
  | true =>
    have hnot : ¬ (!args.allowControl) = true := by rw [hcontrol]; exact Bool.false_ne_true
    rw [if_neg hnot] at hguard
    dsimp only at hguard
    split at hguard
    · cases hguard
    · rename_i hidentity
      cases hguard
      exact ⟨⟨fun _ => ⟨h.control hcontrol, hidentity⟩, fun _ => rfl⟩, rfl, fun _ => ⟨rfl, rfl⟩,
        Bool.true_and _⟩

/-! ### Lifetimes -/

/-- What the process holds. -/
inductive Held
  | session
  | tokens (subjects : List String)
  | publisher (p : Publisher)
  deriving DecidableEq

/-- The subjects that are announced, and those that are being published on. -/
def Held.subjects : List Held → List String × List String
  | [] => ([], [])
  | .session :: held => Held.subjects held
  | .tokens subjects :: held => (subjects ++ (Held.subjects held).1, (Held.subjects held).2)
  | .publisher p :: held => ((Held.subjects held).1, p.subject :: (Held.subjects held).2)

/-- What the process has on the bus. -/
structure Bus where
  /-- What it holds, the last first. -/
  held : List Held := []
  /-- The interfaces that it serves. -/
  serving : List String := []

/-- The bus after an event. Only what was entered last can be left; tokens need a session, and so that
serving begins they are needed too; a publisher needs a token for its subject, and the subject to itself.
What is served is served until the session is closed, by when all else has been left. -/
def track (bus : Bus) (event : AppEvent) : Option Bus :=
  match event, bus with
  | .opened, ⟨[], []⟩ => some ⟨[.session], []⟩
  | .announced subjects, ⟨[.session], serving⟩ => some ⟨[.tokens subjects, .session], serving⟩
  | .servedControl .., ⟨.tokens subjects :: held, serving⟩ =>
    some ⟨.tokens subjects :: held, "container_control" :: serving⟩
  | .servedPlatform .., ⟨.tokens subjects :: held, serving⟩ =>
    some ⟨.tokens subjects :: held, "platform_config" :: serving⟩
  | .started p, ⟨held, serving⟩ =>
    if p.subject ∈ (Held.subjects held).1 ∧ p.subject ∉ (Held.subjects held).2 then
      some ⟨.publisher p :: held, serving⟩
    else none
  | .stopped p, ⟨.publisher q :: held, serving⟩ => if p = q then some ⟨held, serving⟩ else none
  | .retracted, ⟨.tokens _ :: held, serving⟩ => some ⟨held, serving⟩
  | .closed, ⟨[.session], _⟩ => some {}
  | .logged .., bus => some bus
  | _, _ => none

namespace App

variable {K : Bus → Prop}

end App

namespace AppHost

open App

variable {σ : Type} {host : AppHost σ} {args : AppArgs} {K K' : Bus → Prop} {held : List Held}

/-- A manager whose events are those of entering and leaving. -/
theorem opens {x y : Except AppExn Unit} {a b : AppEvent}
    (ha : ∀ bus, K bus → ∃ bus', track bus a = some bus' ∧ K' bus')
    (hb : ∀ bus, K' bus → ∃ bus', track bus b = some bus' ∧ K bus') :
    Opens track id (⟨(do lift x; emit a), (do emit b; lift y)⟩ : Manager AppExn (List AppEvent)) K K' where
  enter {bus s s'} hbus h := by
    obtain ⟨bus', hstep, hbus'⟩ := ha bus hbus
    refine ⟨[a], bus', ?_, by rw [List.foldlM_cons, hstep]; rfl, hbus'⟩
    cases x with
    | ok _ => cases h; rfl
    | error e => cases h
  refused {bus s e s'} hbus h := by
    refine ⟨[], bus, ?_, rfl, hbus⟩
    cases x with
    | ok _ => cases h
    | error e => cases h; exact (List.append_nil _).symm
  exit {bus} hbus s := by
    obtain ⟨bus', hstep, hbus'⟩ := hb bus hbus
    refine ⟨[b], bus', ?_, by rw [List.foldlM_cons, hstep]; rfl, hbus'⟩
    cases y with
    | ok _ => rfl
    | error e => rfl

/-- A session is not closed over its tokens. -/
example : [.opened, .announced [], .closed].foldlM track {} = none := rfl

/-! ### The whole trace -/

/-- What may be in the trace. -/
def Permitted (host : AppHost σ) (args : AppArgs) : AppEvent → Prop
  | .announced subjects => subjects = publishedSubjects args
  | .servedControl guard l => l = limits args ∧
    buildGuard host.engine args.toArgs host.proc host.daemon = some guard
  | .servedPlatform root guard => rootOf args = some root ∧ host.holdsGit root = true ∧
    guard = buildFileGuard args
  | .started p | .stopped p => p ∈ publishers args
  | _ => True

variable {P : AppEvent → Prop}

theorem appends_lift (x : Except AppExn Unit) : Appends id P (lift x) := by
  cases x with
  | ok _ => exact .pure ()
  | error e => exact .throw e

theorem appends_emit {event : AppEvent} (h : P event) : Appends id P (emit event) := by
  intro s
  refine ⟨[event], rfl, fun e he => ?_⟩
  rw [List.mem_singleton.mp he]
  exact h

theorem appends_log (notices : List Notice) (h : ∀ notice, P (.logged notice)) :
    Appends id P (log notices) := by
  unfold log
  induction notices with
  | nil => exact .pure _
  | cons notice notices ih => exact .bind (appends_emit (h notice)) fun _ _ _ _ => ih

theorem appends_servePlatformConfig :
    Appends id (host.Permitted args) (host.servePlatformConfig args) := by
  unfold servePlatformConfig
  split
  · exact .pure _
  · rename_i root hroot
    split
    · rename_i hgit
      apply Appends.bind (appends_lift _)
      intro _ _ _ _
      apply Appends.bind (appends_emit ⟨hroot, hgit, rfl⟩)
      intro _ _ _ _
      apply Appends.bind (appends_log _ fun _ => trivial)
      exact fun _ _ _ _ => appends_log _ fun _ => trivial
    · exact .throw _

theorem appends_run {guard : ControlGuard}
    (hguard : buildGuard host.engine args.toArgs host.proc host.daemon = some guard) :
    Appends id (host.Permitted args) (host.run args guard) := by
  unfold run
  apply Appends.bind (appends_log _ fun _ => trivial)
  intro _ _ _ _
  refine Appends.bind (Scope.Appends.within ?_ ?_ ?_) fun _ _ _ _ => appends_log _ fun _ => trivial
  · exact .bind (appends_lift _) fun _ _ _ _ => appends_emit rfl
  · exact .bind (appends_emit trivial) fun _ _ _ _ => appends_lift _
  · apply Appends.bind (appends_lift _)
    intro _ _ _ _
    apply Appends.bind (appends_emit ⟨rfl, hguard⟩)
    intro _ _ _ _
    apply Appends.bind appends_servePlatformConfig
    intro _ _ _ _
    apply Appends.bind (appends_log _ fun _ => trivial)
    intro _ _ _ _
    rw [stacked_eq_nested]
    refine Scope.Appends.nested (fun m hm => ?_) (appends_lift _)
    obtain ⟨p, hp, rfl⟩ := List.mem_map.mp hm
    exact ⟨.bind (appends_lift _) fun _ _ _ _ => appends_emit hp,
      .bind (appends_emit hp) fun _ _ _ _ => appends_lift _⟩

/-- Nothing happens before the flags are found coherent and the daemon has answered. -/
theorem trace_permitted {event : AppEvent} (h : event ∈ after (host.main args) []) :
    args.Coherent ∧ host.pingBackend = .ok () ∧ host.Permitted args event := by
  have happends : Appends id (fun event => args.Coherent ∧ host.pingBackend = .ok () ∧
      host.Permitted args event) (host.main args) := by
    unfold main
    refine .bind (appends_lift _) fun _ _ _ hcheck => ?_
    have hcoherent : args.Coherent := by
      apply checkArgs_eq_ok.mp
      cases hargs : checkArgs args with
      | ok _ => rfl
      | error e =>
        rw [hargs] at hcheck
        cases hcheck
    split
    · exact .throw _
    · exact .throw _
    · rename_i hping
      split
      · exact .throw _
      · rename_i guard hguard
        have himp {x : App Unit} (hx : Appends id (host.Permitted args) x) : Appends id (fun event =>
            args.Coherent ∧ host.pingBackend = .ok () ∧ host.Permitted args event) x := by
          intro s
          obtain ⟨l, hl, hP⟩ := hx s
          exact ⟨l, hl, fun e he => ⟨hcoherent, hping, hP e he⟩⟩
        apply himp
        apply Appends.bind (appends_log _ fun _ => trivial)
        intro _ _ _ _
        refine Scope.Appends.within ?_ ?_ (.tryCatch (fun e => ?_) (appends_run hguard))
        · exact .bind (appends_lift _) fun _ _ _ _ => appends_emit trivial
        · exact .bind (appends_emit trivial) fun _ _ _ _ => appends_lift _
        · cases e with
          | keyboardInterrupt => exact appends_log _ fun _ => trivial
          | usage _ | exit _ | raised _ => exact .throw _
  exact happends.of_nil rfl event h

/-- **What is served.** Flags that contradict each other end the process before anything else happens. A
responder that serves has reached its daemon, and its guards are those its flags stand for: where it may
control, what it may control is named and it knows itself; removal needs control; the files are served from a
checkout only, and deletion, commits and pushes need what they rest on. -/
theorem served_guards (host : AppHost σ) (args : AppArgs) :
    (¬ args.Coherent → ∃ message, host.main args [] = .error (.usage message) []) ∧
    (∀ guard l, .servedControl guard l ∈ after (host.main args) [] →
      host.pingBackend = .ok () ∧ guard.Sound ∧ guard.controlEnabled = args.allowControl ∧
      guard.removeEnabled = !args.allowRemove.isEmpty ∧
      (args.allowControl = true → guard.allowGlobs = args.allow ∧ guard.removeGlobs = args.allowRemove)) ∧
    ∀ root guard, .servedPlatform root guard ∈ after (host.main args) [] →
      args.platformsRoot = some root ∧ root ≠ "" ∧ host.holdsGit root = true ∧ guard.Sound ∧
      guard = buildFileGuard args := by
  refine ⟨fun hnot => ?_, fun guard l h => ?_, fun root guard h => ?_⟩
  · cases hargs : checkArgs args with
    | ok _ => exact absurd (checkArgs_eq_ok.mp hargs) hnot
    | error e =>
      have husage : IsUsage e := by
        have hwp : wp IsUsage (checkArgs args) fun _ => True := wp_checkArgs
        rw [hargs] at hwp
        exact hwp
      obtain ⟨message, rfl⟩ := husage
      refine ⟨message, ?_⟩
      unfold main
      rw [hargs]
      rfl
  · obtain ⟨hcoherent, hping, -, hguard⟩ := trace_permitted h
    obtain ⟨hsound, hcontrol, hglobs, hremove⟩ := hcoherent.guard hguard
    exact ⟨hping, hsound, hcontrol, hremove, hglobs⟩
  · obtain ⟨hcoherent, -, hroot, hgit, rfl⟩ := trace_permitted h
    obtain ⟨hgiven, hne⟩ := Option.filter_eq_some_iff.mp hroot
    exact ⟨hgiven, of_decide_eq_true hne, hgit, hcoherent.fileGuard, rfl⟩

end AppHost

end KeelsonDocker
