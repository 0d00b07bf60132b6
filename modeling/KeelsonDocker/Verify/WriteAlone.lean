import KeelsonDocker.Verify.SaveStages
import KeelsonDocker.WriteRun

/-!
# A request that nothing comes between

Served while no other thread does anything, a request gets the reply and leaves the tree that the handler
makes of it in one go (`build_eq_served`, `Served.reached`).
-/

namespace KeelsonDocker.WriteRun

open Effect FileSystem PlatformWrite Relation

variable {ι : Type} {ctx : PlatformContext} {host : Host} {raws : ι → Bytes} {i : ι} {raw : Bytes}
  {t t₀ : FileTree Bytes} {replies : List PlatformReply}

/-! ### In one go -/

/-- Where a request gets to outside the lock, if the tree stays as it is. -/
def before (ctx : PlatformContext) (host : Host) (raw : Bytes) (t : FileTree Bytes) : Phase :=
  match host.pb.writeFileRequest raw with
  | .error exc => .refused (.error (.other exc))
  | .ok request =>
    match PlatformHandlers.toWrite ctx t request.path with
    | .error e => .refused (caught e)
    | .ok (path, rel, _) => decided ctx request path rel

/-- What comes of the request, and of the tree. -/
def served (ctx : PlatformContext) (host : Host) (raw : Bytes) (t : FileTree Bytes) :
    Except Exn PlatformReply × FileTree Bytes :=
  match before ctx host raw t with
  | .refused outcome => (outcome, t)
  | .waiting save rel =>
    let (result, t') := saveFile host.sha256Of save host.chances t
    (outcome host rel save.content result, t')
  | _ => (.error (.other "still on its way"), t)

/-- A world with the outcome of one more request. -/
def told (replies : List PlatformReply) : Except Exn PlatformReply × FileTree Bytes →
    EStateM.Result Exn PlatformWorld Unit
  | (.ok reply, t) => .ok () ⟨t, replies ++ [reply]⟩
  | (.error e, t) => .error e ⟨t, replies⟩

theorem guarded_eq {handler : Bytes → PlatformProc Unit} {w : PlatformWorld} :
    PlatformHandlers.guarded handler raw w =
      match handler raw w with
      | .ok _ w' => .ok () w'
      | .error e w' => told w'.replies (caught e, w'.tree) := by
  cases h : handler raw w with
  | ok a w' => exact run_tryCatch_ok h
  | error e w' =>
    rw [PlatformHandlers.guarded, run_tryCatch_error h]
    cases e <;> rfl

theorem toWrite_decision {relative rel : String} {path : Path} {decision : Decision}
    (h : PlatformHandlers.toWrite ctx t relative = .ok (path, rel, decision)) :
    decision = ctx.guard.decideWrite rel := by
  obtain ⟨_, _, h⟩ := bind_eq_ok.mp h
  obtain ⟨_, _, h⟩ := bind_eq_ok.mp h
  cases h
  rfl

/-- The part of the handler that follows the decision. -/
theorem saved_eq {save : Save} {rel : String} :
    (match (do
        PlatformHandlers.saving host save
        let response ← PlatformHandlers.reading fun _ => PlatformHandlers.written host rel save.content
        PlatformHandlers.reply (.ok (.writeFile response)) : PlatformProc Unit) ⟨t, replies⟩ with
      | .ok _ w => .ok () w
      | .error e w => told w.replies (caught e, w.tree)) =
    told replies (outcome host rel save.content (saveFile host.sha256Of save host.chances t).1,
      (saveFile host.sha256Of save host.chances t).2) := by
  cases hsave : saveFile host.sha256Of save host.chances t with
  | mk result t' =>
    cases result with
    | error e =>
      have hsaving : PlatformHandlers.saving host save ⟨t, replies⟩ = .error e ⟨t', replies⟩ := by
        simp [PlatformHandlers.saving, hsave]
      rw [run_bind_error hsaving]
      rfl
    | ok _ =>
      have hsaving : PlatformHandlers.saving host save ⟨t, replies⟩ = .ok () ⟨t', replies⟩ := by
        simp [PlatformHandlers.saving, hsave]
      rw [run_bind_ok hsaving]
      cases hwritten : PlatformHandlers.written host rel save.content with
      | error e =>
        have hread : PlatformHandlers.reading (fun _ => (.error e : Except Exn WriteFileResponse))
            ⟨t', replies⟩ = .error e ⟨t', replies⟩ := rfl
        rw [run_bind_error hread]
        simp [outcome, hwritten]
      | ok response =>
        have hread : PlatformHandlers.reading (fun _ => (.ok response : Except Exn WriteFileResponse))
            ⟨t', replies⟩ = .ok response ⟨t', replies⟩ := rfl
        rw [run_bind_ok hread]
        simp [outcome, hwritten, told, PlatformHandlers.reply]

/-- **The handler in one go.** -/
theorem build_eq_served :
    PlatformHandlers.build ctx host .writeFile raw ⟨t, replies⟩ = told replies (served ctx host raw t) := by
  show PlatformHandlers.guarded (PlatformHandlers.handleWriteFile ctx host) raw ⟨t, replies⟩ = _
  rw [guarded_eq, served, before, PlatformHandlers.handleWriteFile]
  cases hrequest : host.pb.writeFileRequest raw with
  | error exc => rfl
  | ok request =>
    rw [run_bind_ok (PlatformHandlers.decode_eq_ok.mpr ⟨rfl, rfl⟩)]
    dsimp only
    cases hto : PlatformHandlers.toWrite ctx t request.path with
    | error e =>
      have hread : PlatformHandlers.reading (fun t => PlatformHandlers.toWrite ctx t request.path)
          ⟨t, replies⟩ = .error e ⟨t, replies⟩ := by
        simp [PlatformHandlers.reading, hto]
      rw [run_bind_error hread]
    | ok found =>
      obtain ⟨path, rel, decision⟩ := found
      rw [run_bind_ok (PlatformHandlers.reading_eq_ok.mpr ⟨hto, rfl⟩)]
      cases toWrite_decision hto
      simp only [decided]
      by_cases hallowed : (!(ctx.guard.decideWrite rel).allowed) = true
      · rw [if_pos hallowed, if_pos hallowed]
        rfl
      · rw [if_neg hallowed, if_neg hallowed]
        exact saved_eq

/-! ### Step by step -/

section

variable {P : Type} {f : P → P}

/-- What a thread comes by while the tree stays as it is, each time it looks. -/
def Looks (f : P → P) : P → P → Prop := ReflTransGen fun p p' => p' = f p

theorem looks_once {p p' : P} (h : f p = p') : Looks f p p' := .single h.symm

/-- Whoever follows links round by round, on a tree that stays as it is, has followed them all in the
end. -/
theorem follows_links {F : Resolving → P} {G : Path → P}
    (h : ∀ r, f (F r) =
      match r.step fun _ => t.lstat with
      | some r => F r
      | none => G r.path) (path : List String) : Looks f (F (.start path)) (G (t.realpath path)) := by
  have hrun (n : Nat) (r : Resolving) : Looks f (F r) (F (r.run (fun _ => t.lstat) n)) := by
    induction n generalizing r with
    | zero => exact .refl
    | succ n ih =>
      rw [Resolving.run]
      cases hstep : r.step fun _ => t.lstat with
      | none => exact .refl
      | some r' => exact (ReflTransGen.single (by rw [h, hstep])).trans (ih r')
  have hdone := (sound_start t path).run_done (n := path.length + t.unseen [])
    (by simp [Resolving.start])
  exact (hrun (path.length + t.unseen []) _).trans (.single (by rw [h, step_of_done hdone]; rfl))

end

section

variable {request : WriteFileRequest} {parts : List String} {rootReal path real : Path}

theorem looks_rooting : Looks (look ctx host raw t) (.rooting request parts (.start ctx.root))
    (.placing request (t.realpath ctx.root) (.start (t.realpath ctx.root ++ parts))) :=
  follows_links (P := Phase) (F := .rooting request parts) (G := fun p => .placing request p (.start (p ++ parts)))
    (fun _ => rfl) ctx.root

theorem looks_placing (candidate : List String) :
    Looks (look ctx host raw t) (.placing request rootReal (.start candidate))
      (match PlatformPaths.checkPlace rootReal (t.realpath candidate) with
      | .error e => .refused (caught e)
      | .ok _ => .relating request (t.realpath candidate) (.start (t.realpath candidate))) :=
  follows_links (P := Phase) (F := .placing request rootReal)
    (G := fun p =>
      match PlatformPaths.checkPlace rootReal p with
      | .error e => .refused (caught e)
      | .ok _ => .relating request p (.start p))
    (fun _ => rfl) candidate

theorem looks_relating : Looks (look ctx host raw t) (.relating request path (.start path))
    (.rerooting request path (t.realpath path) (.start ctx.root)) :=
  follows_links (P := Phase) (F := .relating request path)
    (G := fun p => .rerooting request path p (.start ctx.root))
    (fun _ => rfl) path

theorem looks_rerooting : Looks (look ctx host raw t) (.rerooting request path real (.start ctx.root))
    (match PlatformPaths.relativeTo (t.realpath ctx.root) real with
    | .error e => .refused (caught e)
    | .ok rel => decided ctx request path rel) :=
  follows_links (P := Phase) (F := .rerooting request path real)
    (G := fun p =>
      match PlatformPaths.relativeTo p real with
      | .error e => .refused (caught e)
      | .ok rel => decided ctx request path rel)
    (fun _ => rfl) ctx.root

end

theorem looks_before : Looks (look ctx host raw t) .arrived (before ctx host raw t) := by
  unfold before
  cases hrequest : host.pb.writeFileRequest raw with
  | error exc => exact looks_once (by simp [look, hrequest])
  | ok request =>
    dsimp only
    cases hshape : PlatformPaths.checkShape request.path with
    | error e =>
      have hto : PlatformHandlers.toWrite ctx t request.path = .error e := by
        simp [PlatformHandlers.toWrite, PlatformPaths.resolve, hshape, bind, Except.bind]
      rw [hto]
      exact looks_once (by simp [look, hrequest, hshape])
    | ok parts =>
      have harrived : Looks (look ctx host raw t) .arrived (.rooting request parts (.start ctx.root)) :=
        looks_once (by simp [look, hrequest, hshape])
      have hplacing := harrived.trans (looks_rooting.trans (looks_placing _))
      cases hplace : PlatformPaths.checkPlace (t.realpath ctx.root)
          (t.realpath (t.realpath ctx.root ++ parts)) with
      | error e =>
        have hto : PlatformHandlers.toWrite ctx t request.path = .error e := by
          simp [PlatformHandlers.toWrite, PlatformPaths.resolve, hshape, hplace, bind, Except.bind]
        rw [hplace] at hplacing
        rw [hto]
        exact hplacing
      | ok _ =>
        rw [hplace] at hplacing
        have hrerooting := hplacing.trans (looks_relating.trans looks_rerooting)
        cases hrel : PlatformPaths.relativeTo (t.realpath ctx.root)
            (t.realpath (t.realpath (t.realpath ctx.root ++ parts))) with
        | error e =>
          have hto : PlatformHandlers.toWrite ctx t request.path = .error e := by
            simp [PlatformHandlers.toWrite, PlatformPaths.resolve, PlatformPaths.relativeToRoot,
              PlatformPaths.checkFile, hshape, hplace, hrel, bind, Except.bind, pure, Except.pure]
          rw [hrel] at hrerooting
          rw [hto]
          exact hrerooting
        | ok rel =>
          have hto : PlatformHandlers.toWrite ctx t request.path =
              .ok (t.realpath (t.realpath ctx.root ++ parts), rel, ctx.guard.decideWrite rel) := by
            simp [PlatformHandlers.toWrite, PlatformPaths.resolve, PlatformPaths.relativeToRoot,
              PlatformPaths.checkFile, hshape, hplace, hrel, bind, Except.bind, pure, Except.pure]
          rw [hrel] at hrerooting
          rw [hto]
          exact hrerooting

theorem carries_run {save : Save} {rel : String} (chances : Nat → Chance) (left n : Nat)
    (stage : PlatformWrite.Stage) (t : FileTree Bytes) :
    ReflTransGen
      (fun p q : Saving × FileTree Bytes => (program ctx host raws).work i p.1 p.2 q.1 q.2)
      (⟨save, rel, stage⟩, t)
      (⟨save, rel, (run host.sha256Of save chances left n stage t).1⟩,
        (run host.sha256Of save chances left n stage t).2) := by
  induction left generalizing n stage t with
  | zero => exact .refl
  | succ left ih =>
    cases stage with
    | ended result => exact .refl
    | _ => exact .head ⟨chances n, rfl⟩ (ih (n + 1) _ _)

variable (ctx host raw t) in
theorem before_cases :
    (∃ outcome, before ctx host raw t = .refused outcome) ∨
      ∃ save rel, before ctx host raw t = .waiting save rel := by
  unfold before decided
  dsimp only
  repeat' split
  all_goals first | exact .inl ⟨_, rfl⟩ | exact .inr ⟨_, _, rfl⟩

/-- **A request that nothing comes between** gets what the handler makes of it in one go. -/
theorem reached_served [DecidableEq ι] {s s₀ : Critical.State ι (FileTree Bytes) Phase Saving}
    (h : Critical.Reached (program ctx host raws) s₀ s) (hfree : s.holder = none)
    (hi : s.locals i = .arrived) :
    ∃ s', Critical.Reached (program ctx host raws) s₀ s' ∧ s'.holder = none ∧
      s'.shared = (served ctx host (raws i) s.shared).2 ∧
      s'.locals i =
        match before ctx host (raws i) s.shared with
        | .waiting .. => .ended (served ctx host (raws i) s.shared).1
        | _ => .refused (served ctx host (raws i) s.shared).1 := by
  have houtside : s.Outside i := by simp [Critical.State.Outside, hfree]
  have hlooks : Looks (look ctx host (raws i) s.shared) (s.locals i) (before ctx host (raws i) s.shared) :=
    hi ▸ looks_before
  have hbefore := h.roams houtside hlooks
  unfold served
  rcases before_cases ctx host (raws i) s.shared with ⟨outcome, hb⟩ | ⟨save, rel, hb⟩
  · rw [hb] at hbefore ⊢
    exact ⟨_, hbefore, hfree, rfl, Function.update_self ..⟩
  · rw [hb] at hbefore ⊢
    have hentered := hbefore.tail (.enter hfree ⟨save, rel, Function.update_self .., rfl⟩)
    have hcarried := hentered.works rfl
      (carries_run host.chances PlatformWrite.Stage.checking.left 0 .checking s.shared)
    have hended : ∃ result,
        (run host.sha256Of save host.chances PlatformWrite.Stage.checking.left 0 .checking
          s.shared).1 = .ended result :=
      run_ended host.chances 0 (Nat.le_refl _)
    obtain ⟨result, hresult⟩ := hended
    have hleft := hcarried.tail (.leave rfl ⟨result, host.git, host.fetchHead, hresult, rfl⟩)
    dsimp only
    rw [saveFile_eq hresult]
    exact ⟨_, hleft, rfl, rfl, Function.update_self ..⟩

end KeelsonDocker.WriteRun
