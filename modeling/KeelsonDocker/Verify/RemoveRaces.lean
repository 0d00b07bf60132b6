import KeelsonDocker.Verify.ActionReports

/-!
# A removal among other clients

`Dockerd` is a daemon that others use too: before each call it serves they may have started, stopped,
removed or recreated any container, and a call may be refused or its answer lost. A delete goes by id; it
is refused for a running container unless it is forced. A removal reads the running state in one call and
deletes in another: it tells the truth about what it deleted (`TellsTruth`) exactly when nobody starts the
container in between, under a forced deletion that succeeds (`tellsTruth_iff`).
-/

namespace KeelsonDocker

open Effect

/-- What comes before one call. -/
structure Turn where
  /-- What the other clients make of the containers. -/
  others : List Container → List Container := id
  /-- The call fails and is not carried out. -/
  refused : Option Exn := none
  /-- The call is carried out, and its answer does not arrive. -/
  lost : Option Exn := none

structure Dockerd where
  containers : List Container
  /-- What comes before each of the next calls. -/
  turns : List Turn := []
  /-- The containers deleted on behalf of this process, each as it was then. -/
  deleted : List Container := []

/-- What the daemon says of a container. -/
def Container.running (c : Container) : Bool :=
  match DockerBackend.flag c "State" "Running" with
  | .ok running => running
  | .error _ => false

namespace Dockerd

def turn (d : Dockerd) : Turn := d.turns.headD {}

/-- The daemon when the next call arrives. -/
def arrived (d : Dockerd) : Dockerd :=
  { d with containers := d.turn.others d.containers, turns := d.turns.tail }

def serve (f : Dockerd → Except Exn α × Dockerd) (d : Dockerd) : Except Exn α × Dockerd :=
  match d.turn.refused, d.turn.lost with
  | some e, _ => (.error e, d.arrived)
  | none, some e => (.error e, (f d.arrived).2)
  | none, none => f d.arrived

def delete (id : String) (force : Bool) (d : Dockerd) : Except Exn Unit × Dockerd :=
  match d.containers.find? (·.id == id) with
  | none => (.error (.docker .notFound ("No such container: " ++ id)), d)
  | some c =>
    if c.running && !force then
      (.error (.docker .apiError ("cannot remove container " ++ id ++ ": container is running")), d)
    else
      (.ok (), { d with
        containers := d.containers.filter (·.id != id)
        deleted := d.deleted ++ [c] })

/-- docker-py over this daemon; `rest` are the calls that a removal does not make. -/
def engine (rest : Engine Dockerd) : Engine Dockerd :=
  { rest with
    fromEnv := serve fun d => (.ok (), d)
    get := fun name => serve fun d => (lookUp d.containers name, d)
    remove := fun c force _ => serve (delete c.id force) }

end Dockerd

open Dockerd

/-- A responder on a host with such a daemon. -/
def Context.shared (ctx : Context Dockerd) : Context Dockerd :=
  { ctx with backend := engine ctx.backend }

/-- What a removal leaves. -/
def removal (ctx : Context Dockerd) (raw : Bytes) (d : Dockerd) (t : Int) : World Dockerd :=
  after (build ctx.shared .remove raw) { daemon := d, timeNs := t }

/-- What a removal deletes and replies, on a daemon with these containers and turns. -/
structure TellsTruth (ctx : Context Dockerd) (raw : Bytes) (containers : List Container)
    (turns : List Turn) (t : Int) : Prop where
  /-- Without force, nothing is deleted that is running. -/
  spared : ∀ req, ctx.pb.removeContainerRequest raw = .ok req → req.force = false →
    ∀ c ∈ (removal ctx raw { containers, turns } t).daemon.deleted, c.running = false
  /-- The container that is gone is the one whose id the reply reports. -/
  reported : ∀ r, .ok (.remove r) ∈ (removal ctx raw { containers, turns } t).replies →
    (removal ctx raw { containers, turns } t).daemon.deleted.map (·.id) = [r.id]
  /-- `force_applied = false` means that no running container was taken down. -/
  unforced : ∀ r, .ok (.remove r) ∈ (removal ctx raw { containers, turns } t).replies →
    r.forceApplied = false →
    ∀ c ∈ (removal ctx raw { containers, turns } t).daemon.deleted, c.running = false

/-- The request, when it is decoded and let through. -/
def asksRemoval (ctx : Context σ) (raw : Bytes) : Option RemoveContainerRequest :=
  match ctx.pb.removeContainerRequest raw with
  | .error _ => none
  | .ok req =>
    if req.name = "" || !(ctx.guard.decideRemove req.name).allowed then none else some req

/-- A forced removal finds the container stopped, and it is running when the deletion, which is carried
out and answered, reaches the daemon. -/
def Overtaken (ctx : Context Dockerd) (raw : Bytes) (d : Dockerd) : Prop :=
  ∃ req c d' last box, asksRemoval ctx raw = some req ∧ req.force = true ∧
    Found (engine ctx.backend) req.name d c d' ∧ DockerBackend.snapshot c = .ok last ∧
    DockerBackend.flag c "State" "Running" = .ok false ∧
    d'.turn.refused = none ∧ d'.turn.lost = none ∧
    d'.arrived.containers.find? (·.id == c.id) = some box ∧ box.running = true

/-! ### The run of a removal -/

namespace DockerBackend

variable {E : Engine σ} {name : String} {force removeVolumes : Bool} {w : World σ}

/-- The refusal of a running container without force. -/
def stillRunning (name : String) : Exn :=
  .backend .invalidState (pyRepr name ++ " is running; stop it first, or repeat with " ++
    "force to kill and remove it in one step")

/-- A removal once its container is found. -/
def removing (E : Engine σ) (name : String) (force removeVolumes : Bool) (c : Container) :
    Proc σ (ContainerSnapshot × Bool) := do
  let last ← ofExcept (snapshot c)
  let running ← ofExcept (liftPy (flag c "State" "Running"))
  if running && !force then throw (stillRunning name)
  request (.remove c force removeVolumes) (E.remove c force removeVolumes)
  return (last, running)

/-- What a removal has read of its container before it asks for the deletion. -/
structure Reads (force : Bool) (c : Container) (last : ContainerSnapshot) (running : Bool) : Prop where
  attrs : snapshot c = .ok last
  state : flag c "State" "Running" = .ok running
  allowed : running = true → force = true

theorem removing_of_reads {c : Container} {last : ContainerSnapshot} {running : Bool}
    (h : Reads force c last running) : removing E name force removeVolumes c =
      (do request (.remove c force removeVolumes) (E.remove c force removeVolumes)
          return (last, running)) := by
  have hrefused : (running && !force) = false := by
    cases running with
    | false => rfl
    | true => rw [h.allowed rfl]; rfl
  have hlast : ofExcept (snapshot c) = (pure last : Proc σ ContainerSnapshot) := by
    rw [h.attrs]
    rfl
  have hflag : ofExcept (liftPy (flag c "State" "Running")) = (pure running : Proc σ Bool) := by
    rw [h.state]
    rfl
  unfold removing
  rw [hlast, pure_bind, hflag, pure_bind, hrefused]
  rfl

/-- A container that cannot be read, or runs without force, is left alone. -/
theorem removing_of_not_reads (E : Engine σ) (name : String) (removeVolumes : Bool) (w : World σ)
    {c : Container} (h : ∀ last running, ¬ Reads force c last running) :
    ∃ e, removing E name force removeVolumes c w = .error e w := by
  unfold removing
  cases hs : snapshot c with
  | error e => exact ⟨e, rfl⟩
  | ok last =>
    cases hr : flag c "State" "Running" with
    | error e => exact ⟨.py e, rfl⟩
    | ok running =>
      have hno : (running && !force) = true := by
        refine Bool.not_eq_false _ ▸ fun hyes => h last running ⟨hs, hr, ?_⟩
        simpa using hyes
      refine ⟨stillRunning name,
        (run_bind_ok (run_pure last w)).trans ((run_bind_ok (run_pure running w)).trans ?_)⟩
      rw [hno]
      exact run_bind_error (run_throw _ w)

theorem lookup_of_not_found (h : ∀ c d', ¬ Found E name w.daemon c d') (what : String)
    (f : Container → Proc σ α) : ∃ e w', w'.replies = w.replies ∧
      (w'.daemon = (E.fromEnv w.daemon).2 ∨
        w'.daemon = (E.get name (E.fromEnv w.daemon).2).2) ∧
      translating what name (do client E; let c ← request (.get name) (E.get name); f c) w =
        .error e w' := by
  cases hc : (E.fromEnv w.daemon).1 with
  | error e =>
    obtain ⟨e', he⟩ := client_error hc
    refine ⟨_, _, ?_, .inl ?_, translating_error (run_bind_error he)⟩ <;> rfl
  | ok u =>
    cases hg : (E.get name (E.fromEnv w.daemon).2).1 with
    | ok c => exact absurd ⟨⟨u, hc⟩, hg, rfl⟩ (h c _)
    | error e =>
      have hget := request_error (c := .get name) (w := w.asked .fromEnv (E.fromEnv w.daemon).2) hg
      refine ⟨_, _, ?_, .inr ?_,
        translating_error ((run_bind_ok (client_ok hc)).trans (run_bind_error hget))⟩ <;> rfl

end DockerBackend

namespace Dockerd

variable {rest : Engine Dockerd} {name id : String} {force : Bool} {c box : Container}
  {d d' : Dockerd}

theorem serve_deleted {f : Dockerd → Except Exn α × Dockerd} (hf : ∀ d, (f d).2.deleted = d.deleted)
    (d : Dockerd) : (serve f d).2.deleted = d.deleted := by
  unfold serve
  cases d.turn.refused with
  | some e => rfl
  | none =>
    cases d.turn.lost with
    | some e => exact hf d.arrived
    | none => exact hf d.arrived

theorem fromEnv_deleted : ((engine rest).fromEnv d).2.deleted = d.deleted :=
  serve_deleted (fun _ => rfl) d

theorem get_deleted : ((engine rest).get name d).2.deleted = d.deleted :=
  serve_deleted (fun _ => rfl) d

theorem found_deleted (h : Found (engine rest) name d c d') : d'.deleted = d.deleted := by
  rw [← h.state, get_deleted, fromEnv_deleted]

/-- The next call, a deletion by id, reaches the daemon and is carried out on this container. -/
structure Deletes (id : String) (force : Bool) (d : Dockerd) (box : Container) : Prop where
  carried : d.turn.refused = none
  found : d.arrived.containers.find? (·.id == id) = some box
  permitted : box.running = true → force = true

theorem Deletes.id_eq (h : Deletes id force d box) : box.id = id := by
  simpa using List.find?_some h.found

theorem delete_of_deletes (h : Deletes id force d box) : delete id force d.arrived =
    (.ok (), { d.arrived with
      containers := d.arrived.containers.filter (·.id != id)
      deleted := d.deleted ++ [box] }) := by
  have hallowed : (box.running && !force) = false := by
    cases hr : box.running with
    | false => rfl
    | true => rw [h.permitted hr]; rfl
  unfold delete
  rw [h.found]
  simp only [hallowed, Bool.false_eq_true, if_false]
  rfl

theorem serve_of_deletes (h : Deletes id force d box) :
    (serve (delete id force) d).2.deleted = d.deleted ++ [box] ∧
      ((serve (delete id force) d).1 = .ok () ↔ d.turn.lost = none) := by
  unfold serve
  rw [h.carried, delete_of_deletes h]
  cases d.turn.lost with
  | none => exact ⟨rfl, fun _ => rfl, fun _ => rfl⟩
  | some e => exact ⟨rfl, nofun, nofun⟩

theorem delete_refused (h : ∀ box, d.containers.find? (·.id == id) = some box →
    ¬(box.running = true → force = true)) : (delete id force d).2 = d ∧
      (delete id force d).1 ≠ .ok () := by
  unfold delete
  cases hbox : d.containers.find? (·.id == id) with
  | none => exact ⟨rfl, nofun⟩
  | some box =>
    have hrefused : (box.running && !force) = true := by
      simpa using h box hbox
    simp [hrefused]

theorem serve_of_not_deletes (h : ∀ box, ¬ Deletes id force d box) :
    (serve (delete id force) d).2.deleted = d.deleted ∧
      (serve (delete id force) d).1 ≠ .ok () := by
  unfold serve
  cases hrefused : d.turn.refused with
  | some e => exact ⟨rfl, nofun⟩
  | none =>
    have hno : ∀ box, d.arrived.containers.find? (·.id == id) = some box →
        ¬(box.running = true → force = true) :=
      fun box hbox hpermitted => h box ⟨hrefused, hbox, hpermitted⟩
    obtain ⟨hstate, hfail⟩ := delete_refused hno
    have hdeleted : (delete id force d.arrived).2.deleted = d.deleted := by
      rw [hstate]
      rfl
    cases d.turn.lost with
    | some e => exact ⟨hdeleted, nofun⟩
    | none => exact ⟨hdeleted, hfail⟩

end Dockerd

/-! ### The handler -/

section

variable {ctx : Context Dockerd} {raw : Bytes} {d : Dockerd} {t : Int} {req : RemoveContainerRequest}

theorem snapshot_name_id {c : Container} {s : ContainerSnapshot} (h : DockerBackend.snapshot c = .ok s) :
    s.name = c.name.getD "" ∧ s.id = c.id := by
  unfold DockerBackend.snapshot at h
  rcases hi : c.image with e | (- | image)
  · rw [hi] at h
    cases he : e.isDocker with
    | true => simp only [he] at h; cases h; exact ⟨rfl, rfl⟩
    | false => simp only [he] at h; cases h
  · rw [hi] at h; cases h; exact ⟨rfl, rfl⟩
  · rw [hi] at h; cases h; exact ⟨rfl, rfl⟩

theorem handleRemove_eq {σ : Type} {ctx : Context σ} (h : asksRemoval ctx raw = some req) :
    handleRemove ctx raw = (do
      let (snapshot, wasRunning) ←
        DockerBackend.remove ctx.backend req.name req.force req.removeVolumes
      replyOk (.remove { name := snapshot.name, id := snapshot.id, forceApplied := wasRunning })) := by
  unfold asksRemoval at h
  split at h
  · cases h
  · rename_i req' hreq
    split at h
    · cases h
    · rename_i hpass
      cases h
      simp only [Bool.or_eq_true, decide_eq_true_eq, not_or, Bool.not_eq_true', Bool.not_eq_false]
        at hpass
      obtain ⟨hname, hallowed⟩ := hpass
      rw [handleRemove_of_decoded hreq hname]
      simp only [hallowed, Bool.not_true, Bool.false_eq_true, if_false]

theorem decoded_of_asksRemoval (h : asksRemoval ctx raw = some req) :
    ctx.pb.removeContainerRequest raw = .ok req := by
  unfold asksRemoval at h
  split at h
  · cases h
  · rename_i req' hreq
    split at h
    · cases h
    · cases h
      exact hreq

/-- What the handler raises leaves no reply of success. -/
theorem removal_of_error {w : World Dockerd} (hw : w.replies = [])
    (h : ∃ e, handleRemove ctx.shared raw { daemon := d, timeNs := t } = .error e w) :
    (removal ctx raw d t).daemon = w.daemon ∧ ∀ r, .ok (.remove r) ∉ (removal ctx raw d t).replies := by
  obtain ⟨e, h⟩ := h
  have hrun : build ctx.shared .remove raw { daemon := d, timeNs := t } = _ := run_tryCatch_error h
  unfold removal
  rw [after, hrun]
  cases e <;> simp [replyErr, World.answer, hw]

theorem removal_of_ok {w : World Dockerd}
    (h : handleRemove ctx.shared raw { daemon := d, timeNs := t } = .ok () w) :
    removal ctx raw d t = w := by
  have hrun : build ctx.shared .remove raw { daemon := d, timeNs := t } = _ := run_tryCatch_ok h
  rw [removal, after_ok hrun]

theorem removal_of_not_asked (h : asksRemoval ctx raw = none) :
    (removal ctx raw d t).daemon = d ∧ ∀ r, .ok (.remove r) ∉ (removal ctx raw d t).replies := by
  have hparse (e : String) : (parse "RemoveContainerRequest" (Except.error e) :
      Proc Dockerd RemoveContainerRequest) = throw _ := rfl
  cases hreq : ctx.pb.removeContainerRequest raw with
  | error e =>
    refine removal_of_error (w := { daemon := d, timeNs := t }) rfl ?_
    unfold handleRemove
    rw [show ctx.shared.pb = ctx.pb from rfl, hreq, hparse]
    exact ⟨_, run_bind_error (run_throw _ _)⟩
  | ok req =>
    have hdecoded : (parse "RemoveContainerRequest" (Except.ok req) :
        Proc Dockerd RemoveContainerRequest) = pure req := rfl
    by_cases hname : req.name = ""
    · have hrequire : (requireName req.name : Proc Dockerd String) = throw _ := if_pos hname
      refine removal_of_error (w := { daemon := d, timeNs := t }) rfl ?_
      unfold handleRemove
      rw [show ctx.shared.pb = ctx.pb from rfl, hreq, hdecoded, pure_bind, hrequire]
      exact ⟨_, run_bind_error (run_throw _ _)⟩
    · have hrefused : (ctx.guard.decideRemove req.name).allowed = false := by
        simpa [asksRemoval, hreq, hname] using h
      have hrun : handleRemove ctx.shared raw { daemon := d, timeNs := t } =
          replyErr (ctx.guard.decideRemove req.name).reason (ctx.guard.decideRemove req.name).code
            { daemon := d, timeNs := t } := by
        rw [handleRemove_of_decoded (show ctx.shared.pb.removeContainerRequest raw = .ok req from hreq)
          hname, show ctx.shared.guard = ctx.guard from rfl]
        simp only [hrefused, Bool.not_false, if_true]
      rw [removal_of_ok hrun]
      exact ⟨rfl, by simp [World.answer]⟩

/-- What has to come together for a removal to delete a container. -/
structure Deletion (ctx : Context Dockerd) (raw : Bytes) (d : Dockerd) (req : RemoveContainerRequest)
    (c : Container) (d' : Dockerd) (last : ContainerSnapshot) (running : Bool) (box : Container) :
    Prop where
  asks : asksRemoval ctx raw = some req
  found : Found (engine ctx.backend) req.name d c d'
  reads : DockerBackend.Reads req.force c last running
  deletes : Deletes c.id req.force d' box

theorem handler_eq (h : asksRemoval ctx raw = some req) : handleRemove ctx.shared raw = (do
    let (snapshot, wasRunning) ←
      DockerBackend.remove (engine ctx.backend) req.name req.force req.removeVolumes
    replyOk (.remove { name := snapshot.name, id := snapshot.id, forceApplied := wasRunning })) :=
  handleRemove_eq (show asksRemoval ctx.shared raw = some req from h)

theorem removal_of_deletion {c box : Container} {d' : Dockerd} {last : ContainerSnapshot}
    {running : Bool} (h : Deletion ctx raw d req c d' last running box) :
    (removal ctx raw d t).daemon.deleted = d.deleted ++ [box] ∧
      ∀ r, .ok (.remove r) ∈ (removal ctx raw d t).replies ↔
        d'.turn.lost = none ∧ r = { name := last.name, id := last.id, forceApplied := running } := by
  obtain ⟨w', hd', hreplies, hlookup⟩ :=
    DockerBackend.lookup_of_found (w := { daemon := d, timeNs := t }) h.found
  obtain ⟨hdeleted, hanswer⟩ := serve_of_deletes h.deletes
  rw [found_deleted h.found, ← hd'] at hdeleted
  rw [← hd'] at hanswer
  have hremove := (hlookup "remove"
    (DockerBackend.removing (engine ctx.backend) req.name req.force req.removeVolumes)).trans
      (congrArg (DockerBackend.translating "remove" req.name · w')
        (DockerBackend.removing_of_reads h.reads))
  cases hcall : (serve (delete c.id req.force) w'.daemon).1 with
  | ok u =>
    have hasked := request_ok (c := .remove c req.force req.removeVolumes) hcall
    have hrun : DockerBackend.remove (engine ctx.backend) req.name req.force req.removeVolumes
        { daemon := d, timeNs := t } = _ :=
      hremove.trans (DockerBackend.translating_eq_ok.mpr ((run_bind_ok hasked).trans (run_pure _ _)))
    have hhandler : handleRemove ctx.shared raw { daemon := d, timeNs := t } = _ :=
      (congrFun (handler_eq h.asks) _).trans ((run_bind_ok hrun).trans rfl)
    rw [removal_of_ok hhandler, ← hd', hanswer.mp hcall]
    refine ⟨hdeleted, fun r => ?_⟩
    simp [World.answer, World.asked, hreplies]
  | error e =>
    have hasked := request_error (c := .remove c req.force req.removeVolumes) hcall
    have hrun : DockerBackend.remove (engine ctx.backend) req.name req.force req.removeVolumes
        { daemon := d, timeNs := t } = _ :=
      hremove.trans (DockerBackend.translating_error (run_bind_error hasked))
    have hhandler : handleRemove ctx.shared raw { daemon := d, timeNs := t } = _ :=
      (congrFun (handler_eq h.asks) _).trans (run_bind_error hrun)
    obtain ⟨hdaemon, hnone⟩ := removal_of_error (w := w'.asked _ _) hreplies ⟨_, hhandler⟩
    rw [hdaemon]
    refine ⟨hdeleted, fun r => ⟨fun hr => absurd hr (hnone r), fun hboth => ?_⟩⟩
    have hlost := hboth.1
    rw [← hd', ← hanswer, hcall] at hlost
    cases hlost

theorem removal_of_no_deletion
    (h : ∀ req c d' last running box, ¬ Deletion ctx raw d req c d' last running box) :
    (removal ctx raw d t).daemon.deleted = d.deleted ∧
      ∀ r, .ok (.remove r) ∉ (removal ctx raw d t).replies := by
  cases hasks : asksRemoval ctx raw with
  | none =>
    obtain ⟨hdaemon, hnone⟩ := removal_of_not_asked (d := d) (t := t) hasks
    exact ⟨congrArg deleted hdaemon, hnone⟩
  | some req =>
    suffices hfails : ∃ e w, w.replies = [] ∧ w.daemon.deleted = d.deleted ∧
        DockerBackend.remove (engine ctx.backend) req.name req.force req.removeVolumes
          { daemon := d, timeNs := t } = .error e w by
      obtain ⟨e, w, hreplies, hdeleted, hrun⟩ := hfails
      obtain ⟨hdaemon, hnone⟩ := removal_of_error hreplies
        ⟨e, (congrFun (handler_eq hasks) _).trans (run_bind_error hrun)⟩
      exact ⟨(congrArg deleted hdaemon).trans hdeleted, hnone⟩
    by_cases hfound : ∃ c d', Found (engine ctx.backend) req.name d c d'
    · obtain ⟨c, d', hfound⟩ := hfound
      obtain ⟨w', hd', hreplies, hlookup⟩ :=
        DockerBackend.lookup_of_found (w := { daemon := d, timeNs := t }) hfound
      have hremove := hlookup "remove"
        (DockerBackend.removing (engine ctx.backend) req.name req.force req.removeVolumes)
      have hbefore : w'.daemon.deleted = d.deleted := by rw [hd', found_deleted hfound]
      by_cases hreads : ∃ last running, DockerBackend.Reads req.force c last running
      · obtain ⟨last, running, hreads⟩ := hreads
        obtain ⟨hdeleted, hfail⟩ := serve_of_not_deletes
          fun box hbox => h req c d' last running box ⟨hasks, hfound, hreads, hbox⟩
        rw [← hd'] at hdeleted hfail
        rw [DockerBackend.removing_of_reads hreads] at hremove
        cases hcall : (serve (delete c.id req.force) w'.daemon).1 with
        | ok u => exact absurd hcall hfail
        | error e =>
          have hasked := request_error (c := .remove c req.force req.removeVolumes) hcall
          exact ⟨_, w'.asked _ _, hreplies, hdeleted.trans hbefore,
            hremove.trans (DockerBackend.translating_error (run_bind_error hasked))⟩
      · obtain ⟨e, he⟩ := DockerBackend.removing_of_not_reads (engine ctx.backend) req.name
          req.removeVolumes w' fun last running hr => hreads ⟨last, running, hr⟩
        exact ⟨_, w', hreplies, hbefore, hremove.trans (DockerBackend.translating_error he)⟩
    · obtain ⟨e, w', hreplies, hstate, hrun⟩ := DockerBackend.lookup_of_not_found
        (w := { daemon := d, timeNs := t }) (fun c d' hc => hfound ⟨c, d', hc⟩) "remove"
        (DockerBackend.removing (engine ctx.backend) req.name req.force req.removeVolumes)
      refine ⟨e, w', hreplies, ?_, hrun⟩
      rcases hstate with hstate | hstate
      · rw [hstate, fromEnv_deleted]
      · rw [hstate, get_deleted, fromEnv_deleted]

end

section

variable {ctx : Context Dockerd} {raw : Bytes} {containers : List Container} {turns : List Turn}
  {t : Int}

theorem exists_deletion_of_mem {c : Container}
    (h : c ∈ (removal ctx raw { containers, turns } t).daemon.deleted) :
    ∃ req c₀ d' last running,
      Deletion ctx raw { containers, turns } req c₀ d' last running c := by
  by_contra hnone
  by_cases hdeletion : ∃ req c₀ d' last running box,
      Deletion ctx raw { containers, turns } req c₀ d' last running box
  · obtain ⟨req, c₀, d', last, running, box, hd⟩ := hdeletion
    rw [(removal_of_deletion hd).1, List.nil_append, List.mem_singleton] at h
    exact hnone ⟨req, c₀, d', last, running, h ▸ hd⟩
  · have hdeleted := (removal_of_no_deletion (t := t)
      fun req c₀ d' last running box hd => hdeletion ⟨req, c₀, d', last, running, box, hd⟩).1
    rw [hdeleted] at h
    cases h

theorem exists_deletion_of_reply {r : RemoveContainerResponse}
    (h : .ok (.remove r) ∈ (removal ctx raw { containers, turns } t).replies) :
    ∃ req c d' last box, Deletion ctx raw { containers, turns } req c d' last r.forceApplied box ∧
      d'.turn.lost = none ∧ r.id = last.id := by
  by_contra hnone
  refine (removal_of_no_deletion fun req c d' last running box hd => hnone ?_).2 r h
  obtain ⟨hanswered, rfl⟩ := ((removal_of_deletion hd).2 r).mp h
  exact ⟨req, c, d', last, box, hd, hanswered, rfl⟩

/-- Without force nothing is deleted that is running, whatever the others do. -/
theorem spared_of_no_force {req : RemoveContainerRequest}
    (hreq : ctx.pb.removeContainerRequest raw = .ok req) (hforce : req.force = false)
    {c : Container} (hc : c ∈ (removal ctx raw { containers, turns } t).daemon.deleted) :
    c.running = false := by
  obtain ⟨req', c₀, d', last, running, hd⟩ := exists_deletion_of_mem hc
  cases hreq.symm.trans (decoded_of_asksRemoval hd.asks)
  rw [← Bool.not_eq_true]
  intro hrun
  cases hforce.symm.trans (hd.deletes.permitted hrun)

/-- The container that is gone is the one whose id the reply reports, whatever the others do. -/
theorem deleted_of_reply {r : RemoveContainerResponse}
    (hr : .ok (.remove r) ∈ (removal ctx raw { containers, turns } t).replies) :
    (removal ctx raw { containers, turns } t).daemon.deleted.map (·.id) = [r.id] := by
  obtain ⟨req, c, d', last, box, hd, -, hid⟩ := exists_deletion_of_reply hr
  rw [(removal_of_deletion hd).1, hid, (snapshot_name_id hd.reads.attrs).2]
  simp [hd.deletes.id_eq]

end

/-- A removal tells the truth exactly when it is not overtaken. -/
theorem tellsTruth_iff (ctx : Context Dockerd) (raw : Bytes) (containers : List Container)
    (turns : List Turn) (t : Int) :
    TellsTruth ctx raw containers turns t ↔ ¬ Overtaken ctx raw { containers, turns } := by
  constructor
  · intro h hovertaken
    obtain ⟨req, c, d', last, box, hasks, hforce, hfound, hlast, hstopped, hcarried, hanswered, hbox,
      hrunning⟩ := hovertaken
    obtain ⟨hdeleted, hreply⟩ := removal_of_deletion (t := t)
      ⟨hasks, hfound, ⟨hlast, hstopped, nofun⟩, ⟨hcarried, hbox, fun _ => hforce⟩⟩
    have hspared := h.unforced _ ((hreply _).mpr ⟨hanswered, rfl⟩) rfl box (by simp [hdeleted])
    rw [hrunning] at hspared
    cases hspared
  · intro h
    refine ⟨fun _ hreq hforce _ => spared_of_no_force hreq hforce, fun _ => deleted_of_reply, ?_⟩
    intro r hr hunforced b hb
    obtain ⟨req, c, d', last, box, hd, hanswered, -⟩ := exists_deletion_of_reply hr
    rw [(removal_of_deletion hd).1, List.nil_append, List.mem_singleton] at hb
    rw [hb, ← Bool.not_eq_true]
    intro hrun
    have hflag := hd.reads.state
    rw [hunforced] at hflag
    exact h ⟨req, c, d', last, box, hd.asks, hd.deletes.permitted hrun, hd.found, hd.reads.attrs,
      hflag, hd.deletes.carried, hanswered, hd.deletes.found, hrun⟩

namespace Restarted

/-- `wire`, with the `force` that may follow the name. -/
def forcing : Protobuf :=
  { wire with
    removeContainerRequest := fun raw =>
      if raw.drop (raw.length - 2) = [16, 1] then
        (readName (raw.take (raw.length - 2))).map fun name =>
          { name, force := true, removeVolumes := false }
      else wire.removeContainerRequest raw }

def app (running : Bool) : Container where
  name := some "app"
  id := "5e8d3c0b7a91f264"
  attrs := .dict [("State", .dict [("Running", .bool running)])]
  labels := .dict []
  image := .ok none

def ctx : Context Dockerd where
  backend :=
    { fromEnv := fun d => (.ok (), d)
      list := fun _ _ d => (.ok d.containers, d)
      get := fun name d => (lookUp d.containers name, d)
      act := fun _ _ _ d => (.ok (), d)
      reload := fun c d => (.ok c, d)
      remove := fun _ _ _ d => (.ok (), d)
      logs := fun _ _ _ _ _ d => (.ok [], d)
      stats := fun _ d => (.ok .none, d) }
  guard := { controlEnabled := true, removeGlobs := ["*"] }
  pb := forcing

/-- Someone starts the exited container between the lookup and the deletion. -/
def turns : List Turn := [{}, {}, { others := fun _ => [app true] }]

def removeApp : Bytes := writeName "app" ++ [16, 1]

theorem not_tellsTruth : ¬ ∀ (ctx : Context Dockerd) (raw : Bytes) (containers : List Container)
    (turns : List Turn) (t : Int), TellsTruth ctx raw containers turns t := by
  intro h
  have hreplies : (removal ctx removeApp { containers := [app false], turns } 0).replies =
      [.ok (.remove { name := "app", id := "5e8d3c0b7a91f264", forceApplied := false })] := rfl
  have hdeleted : (removal ctx removeApp { containers := [app false], turns } 0).daemon.deleted =
      [app true] := rfl
  have hstopped := (h ctx removeApp [app false] turns 0).unforced _
    (by rw [hreplies]; exact List.mem_singleton.mpr rfl) rfl (app true) (by simp [hdeleted])
  cases hstopped

end Restarted

end KeelsonDocker
