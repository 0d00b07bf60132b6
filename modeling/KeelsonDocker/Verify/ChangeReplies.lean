import KeelsonDocker.Verify.RemoveRaces
import KeelsonDocker.Verify.ReplyDiscipline

/-!
# What the reply to a request for a change says

A success is that of the container which was changed, and a refusal is sent only where nothing was: the
exceptions of the calls that change something are translated into other codes (`answered_of_build`).
-/

namespace KeelsonDocker

open Effect

variable {σ : Type}

/-! ### What a reply says of a change -/

/-- What a success says of the container that was changed. -/
def Reports (ctx : Context σ) (m : Mutation) (c : Container) (response : Response) : Prop :=
  match m, response with
  | .act _, .action r => ∃ c' s d, (ctx.backend.reload c d).1 = .ok c' ∧
      DockerBackend.snapshot c' = .ok s ∧ info ctx s = .ok r.container
  | .remove, .remove r => r.name = c.name.getD "" ∧ r.id = c.id
  | _, _ => False

/-- The codes that only stand for a refusal. -/
def Code.refusal : Code → Bool
  | .invalidArgument | .permissionDenied | .invalidState => true
  | _ => false

/-- docker-py raises none of the package's own exceptions. -/
structure Foreign (E : Engine σ) : Prop where
  act : ∀ {verb c timeout d code text}, (E.act verb c timeout d).1 ≠ .error (.backend code text)
  reload : ∀ {c d code text}, (E.reload c d).1 ≠ .error (.backend code text)
  image : ∀ {c d c' code text}, (E.reload c d).1 = .ok c' → c'.image ≠ .error (.backend code text)
  remove : ∀ {c force volumes d code text},
    (E.remove c force volumes d).1 ≠ .error (.backend code text)

/-- The exception of a call that may have changed something is no refusal. -/
def NoRefusal (e : Exn) : Prop := ∀ code text, e = .backend code text → code.refusal = false

/-- How a request for a change was answered: with what was done, or with an error, which refuses only where
there is nothing to be done. -/
inductive Answered (ctx : Context σ) (m : Mutation) (raw : Bytes) (w w' : World σ) : Prop
  | done (c : Container) (response : Response) (hreply : w'.replies = w.replies ++ [.ok response])
      (htarget : target ctx m raw w.daemon = some c) (hreports : Reports ctx m c response)
  | failed (description : String) (code : Code)
      (hreply : w'.replies = w.replies ++ [.err description code])
      (hnone : code.refusal = true → target ctx m raw w.daemon = none)

/-- Not an exception of the backend's own making. -/
def Exn.Outside (e : Exn) : Prop := ∀ code text, e ≠ .backend code text

theorem guarded_eq_ok {handler : Bytes → Proc σ Unit} {raw : Bytes} {w w' : World σ} :
    guarded handler raw w = .ok () w' ↔ handler raw w = .ok () w' ∨
      ∃ code message w₁, handler raw w = .error (.backend code message) w₁ ∧
        w' = w₁.answer (.err message code) := by
  unfold guarded
  cases h : handler raw w with
  | ok u s => rw [run_tryCatch_ok h]; simp
  | error e s =>
    rw [run_tryCatch_error h]
    cases e with
    | backend code message => simp [replyErr, eq_comm]
    | _ => simp

namespace DockerBackend

variable {E : Engine σ} {name what : String} {w w' : World σ}

theorem resolved_eq_some {d : σ} {c : Container} :
    resolved E name d = some c ↔ ∃ d', Found E name d c d' := by
  unfold resolved
  cases hreach : (E.fromEnv d).1 with
  | error e => exact ⟨nofun, fun ⟨_, ⟨_, h⟩, _, _⟩ => nomatch hreach.symm.trans h⟩
  | ok u =>
    cases hget : (E.get name (E.fromEnv d).2).1 with
    | error e =>
      exact ⟨nofun, fun ⟨_, _, h, _⟩ => nomatch hget.symm.trans h⟩
    | ok c' =>
      constructor
      · rintro ⟨⟩
        exact ⟨_, ⟨u, hreach⟩, hget, rfl⟩
      · rintro ⟨_, _, h, _⟩
        cases hget.symm.trans h
        rfl

theorem snapshot_error {c : Container} {e : Exn} (h : snapshot c = .error e) : c.image = .error e := by
  unfold snapshot at h
  rcases hi : c.image with e' | (- | image)
  · rw [hi] at h
    cases he : e'.isDocker with
    | true => simp only [he] at h; cases h
    | false => simp only [he] at h; cases h; rfl
  · rw [hi] at h; cases h
  · rw [hi] at h; cases h

theorem raises_request {P : Exn → Prop} {c : Call} {f : σ → Except Exn α × σ}
    (h : ∀ d e, (f d).1 = .error e → P e) : Raises P (request c f) := by
  intro w e w' hrun
  cases hf : (f w.daemon).1 with
  | ok a => cases (request_ok hf).symm.trans hrun
  | error e' =>
    cases (request_error hf).symm.trans hrun
    exact h _ _ hf

theorem raises_ofExcept {P : Exn → Prop} {x : Except Exn α} (h : ∀ e, x = .error e → P e) :
    Raises P (ofExcept x : Proc σ α) := by
  cases x with
  | ok a => exact .pure a
  | error e => exact .throw (h e rfl)

theorem translated_noRefusal {e : Exn} (h : e.Outside) : NoRefusal (translated what name e) := by
  intro code text he
  cases e with
  | docker kind _ => cases kind <;> cases he <;> rfl
  | backend code' text' => exact absurd rfl (h code' text')
  | _ => cases he

theorem raises_acting (hE : Foreign E) {verb : Verb} {timeout : Option Int} {c : Container} :
    Raises Exn.Outside (acting E verb timeout c) := by
  refine .bind (raises_request fun d e he code text hcode => hE.act (he.trans (congrArg _ hcode))) ?_
  intro _ _ _ _
  refine .bind (raises_request fun d e he code text hcode => hE.reload (he.trans (congrArg _ hcode))) ?_
  intro w c' w' hreload
  refine raises_ofExcept fun e he code text hcode => ?_
  exact hE.image (request_eq_ok.mp hreload).1 ((snapshot_error he).trans (congrArg _ hcode))

/-- Once the container is found, an action raises no refusal. -/
theorem act_noRefusal (hE : Foreign E) {verb : Verb} {timeout : Option Int} {c : Container} {d' : σ}
    {e : Exn} (hfound : Found E name w.daemon c d') (h : act E name verb timeout w = .error e w') :
    NoRefusal e := by
  obtain ⟨w₁, -, -, hlookup⟩ := lookup_of_found hfound
  have hact : act E name verb timeout w = translating verb.name name (acting E verb timeout c) w₁ :=
    hlookup verb.name (acting E verb timeout)
  rw [hact] at h
  cases hrun : acting E verb timeout c w₁ with
  | ok s w₂ => cases (translating_eq_ok.mpr hrun).symm.trans h
  | error e' w₂ =>
    cases (translating_error hrun).symm.trans h
    exact translated_noRefusal (raises_acting hE hrun)

end DockerBackend

/-! ### The description of a container -/

section

variable {x : Except Exn α} {e : Exn}

theorem outside_bind {f : α → Except Exn β} (hx : ∀ e, x = .error e → e.Outside)
    (hf : ∀ a e, f a = .error e → e.Outside) : ∀ e, (x >>= f) = .error e → e.Outside := by
  intro e h
  rcases bind_eq_error.mp h with h | ⟨a, -, h⟩
  · exact hx e h
  · exact hf a e h

theorem outside_liftPy {x : Except PyError α} : ∀ e, liftPy x = .error e → e.Outside := by
  intro e h
  cases x with
  | ok a => cases h
  | error e' =>
    cases h
    exact fun _ _ he => nomatch he

theorem outside_assignInt {low high n : Int} : ∀ e, assignInt low high n = .error e → e.Outside := by
  intro e h
  unfold assignInt at h
  split at h
  · cases h
  · cases h
    exact fun _ _ he => nomatch he

theorem outside_exitCode {pb : Protobuf} {state : PyVal} :
    ∀ e, exitCode pb state = .error e → e.Outside := by
  refine outside_bind outside_liftPy fun finished => ?_
  split
  · exact nofun
  · refine outside_bind outside_liftPy fun raw => ?_
    intro e h
    rw [map_eq_pure_bind] at h
    exact outside_bind outside_assignInt (fun _ _ h => by cases h) e h

/-- A description that cannot be made fails with an exception of Python. -/
theorem outside_info {ctx : Context σ} {s : ContainerSnapshot} :
    ∀ e, info ctx s = .error e → e.Outside := by
  unfold info buildContainerInfo
  iterate 12 refine outside_bind outside_liftPy fun _ => ?_
  iterate 2 refine outside_bind outside_assignInt fun _ => ?_
  iterate 3 refine outside_bind outside_liftPy fun _ => ?_
  exact outside_bind outside_exitCode fun _ _ h => by cases h

end

/-! ### The answer to a request for a change -/

section

variable {ctx : Context σ} {verb : Verb} {raw : Bytes} {w w' : World σ} {c : Container}
  {name : String} {timeout : Option Int} {response : Response} {description : String} {code : Code}

theorem target_of_not_asked {d : σ} (h : asks ctx verb raw = none) :
    target ctx (.act verb) raw d = none := by
  unfold asks at h
  cases hreq : actionRequest ctx.pb verb raw with
  | error e => simp [target, carried, hreq, Except.toOption]
  | ok req =>
    rw [hreq] at h
    dsimp only at h
    split at h
    · rename_i hno
      have hno' : (decide (req.name = "") || !ctx.guard.letsThrough (.act verb) req.name) = true := hno
      simp only [target, carried, hreq, Except.toOption, Option.map_some, Option.bind_eq_bind,
        Option.bind_some, hno', if_true]
    · cases h

theorem target_of_asked {d : σ} (h : asks ctx verb raw = some (name, timeout)) :
    target ctx (.act verb) raw d = resolved ctx.backend name d := by
  unfold asks at h
  cases hreq : actionRequest ctx.pb verb raw with
  | error e => rw [hreq] at h; cases h
  | ok req =>
    rw [hreq] at h
    dsimp only at h
    split at h
    · cases h
    · rename_i hyes
      cases h
      have hyes' : (decide (req.name = "") || !ctx.guard.letsThrough (.act verb) req.name) = false :=
        Bool.not_eq_true _ ▸ hyes
      simp only [target, carried, hreq, Except.toOption, Option.map_some, Option.bind_eq_bind,
        Option.bind_some, hyes', Bool.false_eq_true, if_false]
      cases resolved ctx.backend req.name d <;> rfl

/-- A request that is not decoded or not let through is answered with an error at once. -/
theorem handleAction_of_not_asked (h : asks ctx verb raw = none) (w : World σ) :
    (∃ e, handleAction verb ctx raw w = .error e w) ∨
      ∃ description code, handleAction verb ctx raw w = .ok () (w.answer (.err description code)) := by
  unfold asks at h
  cases hreq : actionRequest ctx.pb verb raw with
  | error e =>
    unfold handleAction
    rw [hreq]
    exact .inl ⟨_, rfl⟩
  | ok req =>
    rw [hreq] at h
    dsimp only at h
    split at h
    · rename_i hno
      by_cases hname : req.name = ""
      · have hrequire : (requireName req.name : Proc σ String) = throw _ := if_pos hname
        have hparse : (parse (actionCls verb) (Except.ok req) : Proc σ ActionRequest) = pure req := rfl
        rw [handleAction, hreq, hparse, pure_bind, hrequire]
        exact .inl ⟨_, run_bind_error (run_throw _ w)⟩
      · rw [handleAction_of_decoded hreq hname, if_pos (by simpa [hname] using hno)]
        exact .inr ⟨_, _, rfl⟩
    · cases h

theorem silent_act {E : Engine σ} : Silent World.replies (DockerBackend.act E name verb timeout) :=
  DockerBackend.appends_translating
    (.bind (DockerBackend.appends_client DockerBackend.callsAppend_replies) fun _ _ _ _ =>
      DockerBackend.appends_acting DockerBackend.callsAppend_replies)

/-- A success is that of the container that was changed, as it is read afterwards. -/
theorem action_answered (hrun : handleAction verb ctx raw w = .ok () w') :
    Answered ctx (.act verb) raw w w' := by
  cases hasks : asks ctx verb raw with
  | none =>
    rcases handleAction_of_not_asked hasks w with ⟨e, h⟩ | ⟨description, code, h⟩
    · cases h.symm.trans hrun
    · cases h.symm.trans hrun
      exact .failed description code rfl fun _ => target_of_not_asked hasks
  | some call =>
    obtain ⟨name, timeout⟩ := call
    rw [handleAction_eq hasks] at hrun
    obtain ⟨s, w₁, hact, hrest⟩ := run_bind_eq_ok.mp hrun
    obtain ⟨i, w₂, hi, hanswer⟩ := run_bind_eq_ok.mp hrest
    obtain ⟨hinfo, rfl⟩ := ofExcept_eq_ok.mp hi
    cases hanswer
    have hreplies := silent_act.view_ok hact
    by_cases hfound : ∃ c d', Found ctx.backend name w.daemon c d'
    · obtain ⟨c, d', hfound⟩ := hfound
      obtain ⟨w₀, -, -, hlookup⟩ := DockerBackend.lookup_of_found hfound
      have hacting := (hlookup verb.name (DockerBackend.acting ctx.backend verb timeout)).symm.trans hact
      rw [DockerBackend.translating_eq_ok] at hacting
      obtain ⟨-, c', hreload, hs⟩ := DockerBackend.acting_eq_ok hacting
      have htarget : target ctx (.act verb) raw w.daemon = some c :=
        (target_of_asked hasks).trans (DockerBackend.resolved_eq_some.mpr ⟨d', hfound⟩)
      refine .done c (.action ⟨i⟩) ?_ htarget ⟨c', s, _, hreload, hs, hinfo⟩
      rw [World.answer, hreplies]
    · obtain ⟨e, w₀, -, -, herror⟩ := DockerBackend.lookup_of_not_found
        (fun c d' h => hfound ⟨c, d', h⟩) verb.name (DockerBackend.acting ctx.backend verb timeout)
      cases herror.symm.trans hact

/-- Where a container is changed, the exception the handler ends in is no refusal. -/
theorem action_noRefusal (hE : Foreign ctx.backend) {e : Exn}
    (htarget : target ctx (.act verb) raw w.daemon = some c)
    (hrun : handleAction verb ctx raw w = .error e w') : NoRefusal e := by
  cases hasks : asks ctx verb raw with
  | none => cases (target_of_not_asked hasks).symm.trans htarget
  | some call =>
    obtain ⟨name, timeout⟩ := call
    rw [target_of_asked hasks] at htarget
    obtain ⟨d', hfound⟩ := DockerBackend.resolved_eq_some.mp htarget
    rw [handleAction_eq hasks] at hrun
    cases hact : DockerBackend.act ctx.backend name verb timeout w with
    | error e' w₁ =>
      cases (run_bind_error hact).symm.trans hrun
      exact DockerBackend.act_noRefusal hE hfound hact
    | ok s w₁ =>
      rw [run_bind_ok hact] at hrun
      cases hi : info ctx s with
      | ok i =>
        rw [hi] at hrun
        cases hrun
      | error e' =>
        rw [hi] at hrun
        cases hrun
        exact fun code text he => absurd he (outside_info _ hi code text)

/-! ### The answer to a removal -/

variable {req : RemoveContainerRequest}

theorem target_of_no_removal {d : σ} (h : asksRemoval ctx raw = none) :
    target ctx .remove raw d = none := by
  unfold asksRemoval at h
  cases hreq : ctx.pb.removeContainerRequest raw with
  | error e => simp [target, carried, hreq, Except.toOption]
  | ok req =>
    rw [hreq] at h
    dsimp only at h
    split at h
    · rename_i hno
      have hno' : (decide (req.name = "") || !ctx.guard.letsThrough .remove req.name) = true := hno
      simp only [target, carried, hreq, Except.toOption, Option.map_some, Option.bind_eq_bind,
        Option.bind_some, hno', if_true]
    · cases h

theorem target_of_removal {d : σ} (h : asksRemoval ctx raw = some req) :
    target ctx .remove raw d = (resolved ctx.backend req.name d).filter (goesAhead .remove req.force) := by
  unfold asksRemoval at h
  cases hreq : ctx.pb.removeContainerRequest raw with
  | error e => rw [hreq] at h; cases h
  | ok req' =>
    rw [hreq] at h
    dsimp only at h
    split at h
    · cases h
    · rename_i hyes
      cases h
      have hyes' : (decide (req.name = "") || !ctx.guard.letsThrough .remove req.name) = false :=
        Bool.not_eq_true _ ▸ hyes
      simp only [target, carried, hreq, Except.toOption, Option.map_some, Option.bind_eq_bind,
        Option.bind_some, hyes', Bool.false_eq_true, if_false]

theorem handleRemove_of_not_asked (h : asksRemoval ctx raw = none) (w : World σ) :
    (∃ e, handleRemove ctx raw w = .error e w) ∨
      ∃ description code, handleRemove ctx raw w = .ok () (w.answer (.err description code)) := by
  unfold asksRemoval at h
  cases hreq : ctx.pb.removeContainerRequest raw with
  | error e =>
    unfold handleRemove
    rw [hreq]
    exact .inl ⟨_, rfl⟩
  | ok req =>
    rw [hreq] at h
    dsimp only at h
    split at h
    · rename_i hno
      by_cases hname : req.name = ""
      · have hrequire : (requireName req.name : Proc σ String) = throw _ := if_pos hname
        have hparse : (parse "RemoveContainerRequest" (Except.ok req) : Proc σ RemoveContainerRequest) =
          pure req := rfl
        rw [handleRemove, hreq, hparse, pure_bind, hrequire]
        exact .inl ⟨_, run_bind_error (run_throw _ w)⟩
      · rw [handleRemove_of_decoded hreq hname, if_pos (by simpa [hname] using hno)]
        exact .inr ⟨_, _, rfl⟩
    · cases h

theorem goesAhead_iff {force : Bool} :
    goesAhead .remove force c = true ↔ ∃ last running, DockerBackend.Reads force c last running := by
  constructor
  · intro h
    cases hs : DockerBackend.snapshot c with
    | error e => simp [goesAhead, hs, Except.toBool] at h
    | ok last =>
      cases hr : DockerBackend.flag c "State" "Running" with
      | error e => simp [goesAhead, hr] at h
      | ok running =>
        refine ⟨last, running, hs, hr, fun hrunning => ?_⟩
        simpa [goesAhead, hs, hr, hrunning, Except.toBool] using h
  · rintro ⟨last, running, hreads⟩
    cases running with
    | false => simp [goesAhead, hreads.attrs, hreads.state, Except.toBool]
    | true => simp [goesAhead, hreads.attrs, hreads.state, hreads.allowed rfl, Except.toBool]

theorem silent_remove {E : Engine σ} {force volumes : Bool} :
    Silent World.replies (DockerBackend.remove E name force volumes) :=
  DockerBackend.appends_remove DockerBackend.callsAppend_replies

/-- A removal finds its container and reads it, or does not return. -/
theorem reads_of_remove {E : Engine σ} {force volumes running : Bool} {last : ContainerSnapshot}
    (h : DockerBackend.remove E name force volumes w = .ok (last, running) w') :
    ∃ c, resolved E name w.daemon = some c ∧ DockerBackend.Reads force c last running := by
  by_cases hfound : ∃ c d', Found E name w.daemon c d'
  · obtain ⟨c, d', hfound⟩ := hfound
    obtain ⟨w₀, -, -, hlookup⟩ := DockerBackend.lookup_of_found hfound
    have hremove := (hlookup "remove" (DockerBackend.removing E name force volumes)).symm.trans h
    rw [DockerBackend.translating_eq_ok] at hremove
    by_cases hreads : ∃ last running, DockerBackend.Reads force c last running
    · obtain ⟨last', running', hreads⟩ := hreads
      rw [DockerBackend.removing_of_reads hreads] at hremove
      obtain ⟨u, w₁, -, hend⟩ := run_bind_eq_ok.mp hremove
      cases hend
      exact ⟨c, DockerBackend.resolved_eq_some.mpr ⟨d', hfound⟩, hreads⟩
    · obtain ⟨e, he⟩ := DockerBackend.removing_of_not_reads E name volumes w₀
        fun last running hr => hreads ⟨last, running, hr⟩
      cases he.symm.trans hremove
  · obtain ⟨e, w₀, -, -, herror⟩ := DockerBackend.lookup_of_not_found
      (fun c d' h => hfound ⟨c, d', h⟩) "remove" (DockerBackend.removing E name force volumes)
    cases herror.symm.trans h

theorem removal_answered (hrun : handleRemove ctx raw w = .ok () w') :
    Answered ctx .remove raw w w' := by
  cases hasks : asksRemoval ctx raw with
  | none =>
    rcases handleRemove_of_not_asked hasks w with ⟨e, h⟩ | ⟨description, code, h⟩
    · cases h.symm.trans hrun
    · cases h.symm.trans hrun
      exact .failed description code rfl fun _ => target_of_no_removal hasks
  | some req =>
    rw [handleRemove_eq hasks] at hrun
    obtain ⟨⟨last, running⟩, w₁, hremove, hanswer⟩ := run_bind_eq_ok.mp hrun
    cases hanswer
    obtain ⟨c, hresolved, hreads⟩ := reads_of_remove hremove
    have htarget : target ctx .remove raw w.daemon = some c := by
      rw [target_of_removal hasks, hresolved, Option.filter, if_pos (goesAhead_iff.mpr ⟨_, _, hreads⟩)]
    refine .done c (.remove ⟨last.name, last.id, running⟩) ?_ htarget (snapshot_name_id hreads.attrs)
    rw [World.answer, silent_remove.view_ok hremove]

theorem removal_noRefusal (hE : Foreign ctx.backend) {e : Exn}
    (htarget : target ctx .remove raw w.daemon = some c)
    (hrun : handleRemove ctx raw w = .error e w') : NoRefusal e := by
  cases hasks : asksRemoval ctx raw with
  | none => cases (target_of_no_removal hasks).symm.trans htarget
  | some req =>
    rw [target_of_removal hasks] at htarget
    obtain ⟨hresolved, hgoes⟩ := Option.filter_eq_some_iff.mp htarget
    obtain ⟨d', hfound⟩ := DockerBackend.resolved_eq_some.mp hresolved
    obtain ⟨last, running, hreads⟩ := goesAhead_iff.mp hgoes
    obtain ⟨w₀, -, -, hlookup⟩ := DockerBackend.lookup_of_found hfound
    have hremove := hlookup "remove"
      (DockerBackend.removing ctx.backend req.name req.force req.removeVolumes)
    rw [DockerBackend.removing_of_reads hreads] at hremove
    rw [handleRemove_eq hasks] at hrun
    cases hrequest : request (.remove c req.force req.removeVolumes)
        (ctx.backend.remove c req.force req.removeVolumes) w₀ with
    | ok u w₁ =>
      have hok : DockerBackend.remove ctx.backend req.name req.force req.removeVolumes w =
          .ok (last, running) w₁ :=
        hremove.trans (DockerBackend.translating_eq_ok.mpr (run_bind_ok hrequest))
      rw [run_bind_ok hok] at hrun
      cases hrun
    | error e' w₁ =>
      have herror : DockerBackend.remove ctx.backend req.name req.force req.removeVolumes w =
          .error (DockerBackend.translated "remove" req.name e') w₁ :=
        hremove.trans (DockerBackend.translating_error (run_bind_error hrequest))
      cases (run_bind_error herror).symm.trans hrun
      have houtside : e'.Outside := DockerBackend.raises_request
        (fun d e he code text hcode => hE.remove (he.trans (congrArg _ hcode))) hrequest
      exact DockerBackend.translated_noRefusal houtside

/-- Of a request for a change that returns. -/
theorem answered_of_build (hE : Foreign ctx.backend) {m : Mutation}
    (hrun : build ctx m.procedure raw w = .ok () w') : Answered ctx m raw w w' := by
  have hguarded {handler : Bytes → Proc σ Unit} (hrun : guarded handler raw w = .ok () w')
      (hanswered : handler raw w = .ok () w' → Answered ctx m raw w w')
      (hraised : ∀ e w₁, handler raw w = .error e w₁ → w₁.replies = w.replies ∧
        ∀ c, target ctx m raw w.daemon = some c → NoRefusal e) : Answered ctx m raw w w' := by
    rcases guarded_eq_ok.mp hrun with hok | ⟨code, message, w₁, herror, rfl⟩
    · exact hanswered hok
    · obtain ⟨hreplies, hno⟩ := hraised _ _ herror
      refine .failed message code (by rw [World.answer, hreplies]) fun hrefusal => ?_
      cases htarget : target ctx m raw w.daemon with
      | none => rfl
      | some c => cases hrefusal.symm.trans (hno c htarget code message rfl)
  cases m with
  | act verb =>
    have hact : guarded (handleAction verb ctx) raw w = .ok () w' := by cases verb <;> exact hrun
    exact hguarded hact action_answered fun e w₁ h =>
      ⟨once_handleAction.error h, fun c htarget => action_noRefusal hE htarget h⟩
  | remove =>
    exact hguarded hrun removal_answered fun e w₁ h =>
      ⟨once_handleRemove.error h, fun c htarget => removal_noRefusal hE htarget h⟩

end

end KeelsonDocker
