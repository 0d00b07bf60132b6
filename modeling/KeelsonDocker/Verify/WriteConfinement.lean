import KeelsonDocker.Verify.ReportedPaths
import KeelsonDocker.Verify.CompareAndSwap

/-!
# What saves may change

A place is resolved, named and allowed while other saves go on, and written afterwards. Whatever the
requests and however their threads take turns, nothing but files inside the repository is ever changed,
each of an allowed name, each by the content of a request, and each only if the flags permit the name it
goes by (`write_confined`). Saves take links away at most, and those that lead to no directory: one gets
to every directory that one got to before (`Kept`), so the root a thread found is the root still.
-/

namespace KeelsonDocker.WriteRun

open Effect FileSystem FileTree PlatformWrite

section

variable {ι : Type} {ctx : PlatformContext} {host : Host} {raws : ι → Bytes} {i : ι}
  {t t₀ t₁ t' : FileTree Bytes} {phase : Phase} {saving : Saving} {chance : Chance} {save : Save}
  {stage : PlatformWrite.Stage} {path rootReal k : Path} {rel : String} {r r' : Resolving}
  {comps : List String} {n : Nat}

/-! ### Following links to a directory -/

/-- However the links of a path are followed, one gets to where the kernel gets. -/
def Heads (t : FileTree Bytes) (comps : List String) (r : Resolving) : Prop :=
  ∀ u, Sub u t.skeleton → Sound u r ∧ Leaves u [] comps r.path (FileSystem.parts r.stack)

theorem heads_start (t : FileTree Bytes) (comps : List String) : Heads t comps (.start comps) := by
  intro u _
  refine ⟨sound_start u comps, ?_⟩
  simpa [Resolving.start] using Leaves.refl

theorem Heads.of_sub (h : Heads t comps r) (hsub : Sub t'.skeleton t.skeleton) : Heads t' comps r :=
  fun u hu => h u (hu.trans hsub)

theorem Heads.step (h : Heads t comps r) (hstep : (r.step fun _ => t.lstat) = some r') :
    Heads t comps r' := by
  intro u hu
  obtain ⟨hsound, hleaves⟩ := h u hu
  have hanswers := answers_of_sub (hu.trans (sub_skeleton t))
  obtain ⟨hsound', hleaves'⟩ := hsound.round hanswers (round_of_step hstep)
  exact ⟨hsound', hleaves.trans hleaves'⟩

theorem Heads.done (h : Heads t comps r) (hdone : (r.step fun _ => t.lstat) = none)
    (hw : Walk t.skeleton n [] comps k) : r.path = k := by
  obtain ⟨_, hleaves⟩ := h t.skeleton (Sub.refl _)
  rw [stack_of_step_eq_none hdone] at hleaves
  obtain ⟨_, m, _, hw'⟩ := hleaves [] n k located_nil (by simpa using hw)
  cases hw'
  rfl

/-! ### What becomes of the tree -/

/-- No links but those there were, and one gets to every directory one got to. -/
structure Kept (t₀ t : FileTree Bytes) : Prop where
  sub : Sub t.skeleton t₀.skeleton
  walks : ∀ n comps k, Walk t₀.skeleton n [] comps k → Walk t.skeleton n [] comps k

theorem Kept.refl (t : FileTree Bytes) : Kept t t := ⟨Sub.refl _, fun _ _ _ => id⟩

theorem Kept.trans (h : Kept t₀ t₁) (h' : Kept t₁ t) : Kept t₀ t :=
  ⟨h'.sub.trans h.sub, fun n comps k hw => h'.walks n comps k (h.walks n comps k hw)⟩

theorem Kept.of_same (h : Same t₀ t) : Kept t₀ t where
  sub := h.skeleton_sub
  walks _ _ _ hw := by
    refine hw.mono (FileSystem.skeleton_sub (fun q nd hn _ => ?_) h.refused.symm)
    rw [h.node, hn]

/-- A file in the place of nothing, of a file or of a link that led to no directory. -/
theorem Kept.of_sets {mode : Nat} {content : Bytes} (hclean : Clean t₀.skeleton path)
    (hentry : t₀.node path ≠ some .dir) (hsets : Sets t₀ t path (some (.file mode content))) :
    Kept t₀ t where
  sub := hsets.skeleton_sub rfl
  walks n comps k hw := by
    refine hw.of_dead located_nil hclean (fun nd hn => ?_) (fun q nd hq hn => ?_) hsets.refused
    · obtain ⟨hn, hfile⟩ := skeleton_node.mp hn
      cases nd with
      | dir => exact absurd hn hentry
      | file => cases hfile
      | link => rfl
    · obtain ⟨hn, hfile⟩ := skeleton_node.mp hn
      exact skeleton_node.mpr ⟨by rw [hsets.node_of_ne hq, hn], hfile⟩

/-! ### What is known of a place -/

/-- The place stands in a directory, and was no link to begin with. -/
structure Ordinary (t₀ t : FileTree Bytes) (path : Path) : Prop where
  parent : Located t.skeleton path.dropLast
  entry : ∀ a target, t₀.node path ≠ some (.link a target)

theorem Ordinary.of_sub (h : Ordinary t₀ t' path) (hsub : Sub t'.skeleton t.skeleton) :
    Ordinary t₀ t path :=
  ⟨h.parent.mono hsub, h.entry⟩

structure Within (rootReal path : Path) : Prop where
  inside : rootReal <+: path
  name : PlatformPaths.isAllowedName (pathName path) = true

/-- The request may go on to write the place under the name it has been found to go by. -/
structure Permitted (ctx : PlatformContext) (t₀ t : FileTree Bytes) (rootReal path : Path) (rel : String) :
    Prop where
  within : Within rootReal path
  allowed : (ctx.guard.decideWrite rel).allowed = true
  rel : Ordinary t₀ t path → rel = asPosix (path.drop rootReal.length)

/-- What a thread outside the lock has found out. -/
def Tracked (ctx : PlatformContext) (t₀ : FileTree Bytes) (rootReal : Path) (t : FileTree Bytes) :
    Phase → Prop
  | .arrived | .refused _ | .ended _ => True
  | .rooting _ _ r => Heads t ctx.root r
  | .placing _ root _ => root = rootReal
  | .relating _ path r => Within rootReal path ∧ (Ordinary t₀ t path → Onward path r)
  | .rerooting _ path real r =>
    Within rootReal path ∧ (Ordinary t₀ t path → real = path) ∧ Heads t ctx.root r
  | .waiting save rel => Permitted ctx t₀ t rootReal save.path rel

theorem Tracked.of_sub (h : Tracked ctx t₀ rootReal t phase) (hsub : Sub t'.skeleton t.skeleton) :
    Tracked ctx t₀ rootReal t' phase := by
  cases phase with
  | arrived | refused | ended => trivial
  | rooting => exact Heads.of_sub h hsub
  | placing => exact h
  | relating => exact ⟨h.1, fun hord => h.2 (hord.of_sub hsub)⟩
  | rerooting => exact ⟨h.1, fun hord => h.2.1 (hord.of_sub hsub), h.2.2.of_sub hsub⟩
  | waiting => exact ⟨h.within, h.allowed, fun hord => h.rel (hord.of_sub hsub)⟩

/-- What holds of a thread outside the lock. -/
structure Watched (ctx : PlatformContext) (host : Host) (raws : ι → Bytes) (t₀ : FileTree Bytes)
    (rootReal : Path) (i : ι) (t : FileTree Bytes) (phase : Phase) : Prop where
  good : Good host raws i t phase
  kept : Kept t₀ t
  tracked : Tracked ctx t₀ rootReal t phase

theorem Watched.of_kept (h : Watched ctx host raws t₀ rootReal i t phase) (hkept : Kept t₀ t')
    (hsub : Sub t'.skeleton t.skeleton) : Watched ctx host raws t₀ rootReal i t' phase :=
  ⟨h.good.of_sub hsub, hkept, h.tracked.of_sub hsub⟩

theorem Watched.look (h : Watched ctx host raws t₀ rootReal i t phase)
    (hroot : Walk t₀.skeleton n [] ctx.root rootReal) :
    Watched ctx host raws t₀ rootReal i t (look ctx host (raws i) t phase) := by
  refine ⟨h.good.look, h.kept, ?_⟩
  have hfound : Walk t.skeleton n [] ctx.root rootReal := h.kept.walks n _ _ hroot
  have htracked := h.tracked
  cases phase with
  | waiting | refused | ended => exact htracked
  | arrived =>
    simp only [WriteRun.look]
    split
    · trivial
    · split
      · trivial
      · exact heads_start t ctx.root
  | rooting request parts r =>
    simp only [WriteRun.look]
    split
    · rename_i hstep
      exact Heads.step htracked hstep
    · rename_i hdone
      exact Heads.done htracked hdone hfound
  | placing request root r =>
    simp only [WriteRun.look]
    split
    · exact htracked
    · split
      · trivial
      · rename_i hplace
        obtain ⟨hinside, hname⟩ := PlatformPaths.checkPlace_eq_ok.mp hplace
        cases htracked
        exact ⟨⟨hinside, hname⟩, fun _ => onward_start r.path⟩
  | relating request path r =>
    obtain ⟨hwithin, honward⟩ := htracked
    simp only [WriteRun.look]
    split
    · rename_i hstep
      refine ⟨hwithin, fun hord => (honward hord).step ?_ ?_ ?_ hstep⟩
      · exact (h.good.2.clean _ (Sub.refl _)).names
      · exact hord.parent.mono (sub_skeleton t)
      · rintro q name a target rfl hl
        have hl₀ := h.kept.sub.lookup _ _ _ (skeleton_lookup hl rfl)
        exact hord.entry a target (skeleton_node.mp (node_of_lookup hl₀)).1
    · rename_i hdone
      exact ⟨hwithin, fun hord => (honward hord).done (stack_of_step_eq_none hdone), heads_start t _⟩
  | rerooting request path real r =>
    obtain ⟨hwithin, hreal, hheads⟩ := htracked
    simp only [WriteRun.look]
    split
    · rename_i hstep
      exact ⟨hwithin, hreal, hheads.step hstep⟩
    · rename_i hdone
      split
      · trivial
      · rename_i rel hrel
        unfold decided
        dsimp only
        split
        · trivial
        · rename_i hallowed
          refine ⟨hwithin, by simpa using hallowed, fun hord => ?_⟩
          obtain ⟨_, hrel⟩ := PlatformHandlers.of_relativeTo hrel
          rw [hrel, hreal hord, hheads.done hdone hfound]

/-! ### Under the lock -/

/-- The call that puts the file into place fails if a directory stands there. -/
theorem entry_of_advance (h : Holds host.sha256Of save t₀ stage t) (hclean : Clean t₀.skeleton save.path)
    (hne : save.path ≠ []) (hbefore : ∀ result, stage ≠ .ended result)
    (hended : (advance host.sha256Of save chance stage t).1 = .ended (.ok ())) :
    t₀.node save.path ≠ some .dir := by
  cases stage with
  | ended result => exact absurd rfl (hbefore result)
  | creating mode tries =>
    exfalso
    cases tries <;> simp only [advance] at hended <;> (repeat' split at hended) <;> cases hended
  | checking | preparing | writing | syncing | chmodding | cleaning =>
    exfalso
    simp only [advance] at hended
    repeat' split at hended
    all_goals cases hended
  | replacing tmp =>
    obtain ⟨-, hstaged⟩ := h
    obtain ⟨d, hd, hdir, hplace⟩ := hstaged.beside
    obtain ⟨mode, hsets⟩ := hstaged.sets
    obtain ⟨mode', hl⟩ := hstaged.lookup hplace
    obtain ⟨m, _, hw⟩ := walk_eq_ok.mp hd
    obtain ⟨_, rfl⟩ := hclean.dropLast.located (hw.skeleton hdir)
    have hother : parent save.path ++ [tmp.name] ≠ parent save.path ++ [pathName save.path] := by
      simpa using hstaged.other
    simp only [advance] at hended
    split at hended
    · cases hended
    · split at hended
      · rename_i t' hren
        have hd' := hstaged.walk_parent hd
        obtain ⟨_, hrep, _⟩ := sets_of_rename hren hd' hd' hl hother
        have hdir' : t.node save.path.dropLast = some .dir := by
          rw [hsets.node_of_ne, hdir]
          intro heq
          have hfresh := hstaged.fresh
          rw [← heq, hdir] at hfresh
          cases hfresh
        have hentry := (replaceable_eq_ok hrep hdir').2
        rw [hsets.node_of_ne (hplace ▸ hother.symm), dropLast_pathName hne] at hentry
        exact hentry
      · cases hended

/-- What holds of the thread that took the lock with the tree `t₁`. -/
structure Bound (ctx : PlatformContext) (host : Host) (raws : ι → Bytes) (t₀ : FileTree Bytes)
    (rootReal : Path) (i : ι) (t₁ : FileTree Bytes) (saving : Saving) (t : FileTree Bytes) : Prop where
  inside : Inside host raws i t₁ saving t
  before : Kept t₀ t₁
  permitted : Permitted ctx t₀ t₁ rootReal saving.save.path saving.rel
  entry : Completed saving → t₁.node saving.save.path ≠ some .dir

theorem Bound.kept (h : Bound ctx host raws t₀ rootReal i t₁ saving t) : Kept t₀ t := by
  refine h.before.trans ?_
  by_cases hc : Completed saving
  · obtain ⟨mode, hsets⟩ := (h.inside.landed hc).sets
    exact .of_sets (h.inside.fit.clean _ (Sub.refl _)) (h.entry hc) hsets
  · by_cases hended : ∃ result, saving.stage = .ended result
    · obtain ⟨result, hresult⟩ := hended
      exact .of_same (h.inside.same hresult hc)
    · have hholds := h.inside.holds
      refine ⟨hholds.skeleton_sub, fun _ _ _ hw => hw.mono ?_⟩
      exact hholds.skeleton_sup fun result hresult => hended ⟨result, hresult⟩

theorem Bound.carry (h : Bound ctx host raws t₀ rootReal i t₁ saving t) :
    Bound ctx host raws t₀ rootReal i t₁ (carry host chance saving t).1 (carry host chance saving t).2 where
  inside := ⟨h.inside.asked, h.inside.fit, h.inside.holds.advance⟩
  before := h.before
  permitted := h.permitted
  entry hc := by
    by_cases hended : ∃ result, saving.stage = .ended result
    · obtain ⟨result, hresult⟩ := hended
      refine h.entry ?_
      have hstage : (advance host.sha256Of saving.save chance saving.stage t).1 = .ended (.ok ()) := hc
      rw [hresult] at hstage
      exact hresult.trans hstage
    · exact entry_of_advance h.inside.holds (h.inside.fit.clean _ (Sub.refl _)) h.inside.fit.ne
        (fun result hresult => hended ⟨result, hresult⟩) hc

variable (host raws) in
theorem rules_watched (hroot : Walk t₀.skeleton n [] ctx.root rootReal) :
    Critical.Rules (program ctx host raws) (Watched ctx host raws t₀ rootReal)
      (Bound ctx host raws t₀ rootReal) where
  roam h hroam := hroam ▸ h.look hroot
  enter h henter := by
    obtain ⟨save, rel, rfl, rfl⟩ := henter
    exact ⟨⟨h.good.1, h.good.2, rfl⟩, h.kept, h.tracked, nofun⟩
  work h hwork := by
    obtain ⟨chance, hwork⟩ := hwork
    cases hwork
    exact h.carry
  stands h hwork hwatched := by
    obtain ⟨chance, hwork⟩ := hwork
    cases hwork
    exact hwatched.of_kept h.carry.kept (carry_skeleton_sub h.inside.holds)
  leave h hleave := by
    obtain ⟨_, _, _, _, rfl⟩ := hleave
    exact ⟨trivial, h.kept, trivial⟩

/-! ### Runs -/

/-- What a change of the tree `t₀` at a place has to be. -/
structure Granted (ctx : PlatformContext) (host : Host) (raws : ι → Bytes) (t₀ : FileTree Bytes)
    (rootReal : Path) (t : FileTree Bytes) (path : Path) : Prop where
  within : Within rootReal path
  content : ∃ i request mode, host.pb.writeFileRequest (raws i) = .ok request ∧
    t.node path = some (.file mode request.content)
  enabled : ctx.guard.writeEnabled = true
  permitted : (∀ a target, t₀.node path ≠ some (.link a target)) →
    ∃ glob ∈ ctx.guard.writeGlobs,
      PlatformPaths.pathMatches (asPosix (path.drop rootReal.length)) glob = true
  /-- No directory was there, nor a link that led to one. -/
  nowhere : ∀ n k, Walk t₀ n [] path k → t₀.node k ≠ some .dir

theorem allowed_of_decideWrite {guard : FileGuard} (h : (guard.decideWrite rel).allowed = true) :
    guard.writeEnabled = true ∧
      ∃ glob ∈ guard.writeGlobs, PlatformPaths.pathMatches rel glob = true := by
  unfold FileGuard.decideWrite FileGuard.against at h
  split at h
  · cases h
  · rename_i henabled
    split at h
    · cases h
    · rename_i hmatches
      exact ⟨by simpa using henabled, by simpa using hmatches⟩

/-- A save that is carried through has found the directory it writes to. -/
theorem Inside.parent (h : Inside host raws i t₁ saving t) (hc : Completed saving) :
    Located t₁.skeleton saving.save.path.dropLast := by
  have hholds := h.holds
  rw [hc] at hholds
  obtain ⟨-, d, _, hd, hdir, _⟩ := hholds
  obtain ⟨n, _, hw⟩ := walk_eq_ok.mp hd
  exact ((h.fit.clean _ (Sub.refl _)).dropLast.located (hw.skeleton hdir)).1

theorem Bound.granted (h : Bound ctx host raws t₀ rootReal i t₁ saving t) (hc : Completed saving) :
    Granted ctx host raws t₀ rootReal t saving.save.path := by
  obtain ⟨henabled, hglob⟩ := allowed_of_decideWrite h.permitted.allowed
  refine ⟨h.permitted.within, ?_, henabled, fun hentry => ?_, fun n k hw hk => ?_⟩
  · obtain ⟨request, hrequest, hcontent, _⟩ := h.inside.asked
    obtain ⟨mode, hsets⟩ := (h.inside.landed hc).sets
    exact ⟨i, request, mode, hrequest, hcontent ▸ hsets.node_self⟩
  · rw [← h.permitted.rel ⟨h.inside.parent hc, hentry⟩]
    exact hglob
  · have hclean := h.inside.fit.clean t₁.skeleton (Sub.refl _)
    obtain ⟨hlocated, _⟩ := hclean.located (h.before.walks _ _ _ (hw.skeleton hk))
    obtain ⟨nd, hn, hlink⟩ := hlocated.node
    obtain ⟨hn, hfile⟩ := skeleton_node.mp hn
    cases nd with
    | dir => exact h.entry hc hn
    | file => cases hfile
    | link => cases hlink

theorem Granted.of_node (h : Granted ctx host raws t₀ rootReal t path) (hn : t'.node path = t.node path) :
    Granted ctx host raws t₀ rootReal t' path where
  within := h.within
  content := by
    rw [hn]
    exact h.content
  enabled := h.enabled
  permitted := h.permitted
  nowhere := h.nowhere

/-- **Nothing is changed but what the flags permit**, whatever the requests and however their threads take
turns. -/
theorem write_confined [DecidableEq ι] {s : State ι} (hroot : t₀.walk ctx.root = .ok rootReal)
    (hdir : t₀.node rootReal = some .dir) (h : Reached ctx host raws t₀ s)
    (hchanged : s.settled.node path ≠ t₀.node path) :
    Granted ctx host raws t₀ rootReal s.settled path := by
  obtain ⟨n, _, hw⟩ := walk_eq_ok.mp hroot
  have hrules := rules_watched host raws (hw.skeleton hdir)
  have hstart (i : ι) : Watched ctx host raws t₀ rootReal i t₀ .arrived := ⟨trivial, .refl t₀, trivial⟩
  have horderly := hrules.reached (Critical.orderly_start hstart) h
  refine horderly.chain.keeps
    (K := fun t => ∀ path, t.node path ≠ t₀.node path → Granted ctx host raws t₀ rootReal t path)
    (fun _ hne => absurd rfl hne) (fun turn hturn hbefore path hne => ?_) path hchanged
  obtain ⟨hbound, hleave⟩ := horderly.taken turn hturn
  by_cases hc : Completed turn.ended
  · obtain ⟨mode, hsets⟩ := (hbound.inside.landed hc).sets
    by_cases hpath : path = turn.ended.save.path
    · exact hpath ▸ hbound.granted hc
    · have hn := hsets.node_of_ne hpath
      exact (hbefore path (hn ▸ hne)).of_node hn
  · obtain ⟨_, _, _, hended, _⟩ := hleave
    have hn := congrFun (hbound.inside.same hended hc).node path
    exact (hbefore path (hn ▸ hne)).of_node hn

end

namespace Edit

theorem write_confined_edit : ∃ s, Reached ctx host (fun _ : Unit => []) tree s ∧
    Granted ctx host (fun _ : Unit => []) tree ["srv"] s.settled ["srv", "notes.md"] := by
  have hstart : Reached ctx host (fun _ : Unit => []) tree (start tree) := .refl
  obtain ⟨s, hs, hfree, hshared, _⟩ := reached_served hstart rfl (i := ()) rfl
  have hsettled : s.settled = (served ctx host [] tree).2 := by
    simp only [Critical.State.settled, hfree]
    exact hshared
  have hchanged : s.settled.node ["srv", "notes.md"] ≠ tree.node ["srv", "notes.md"] := by
    rw [hsettled]
    decide
  have hroot : tree.walk ctx.root = .ok ["srv"] := rfl
  exact ⟨s, hs, write_confined hroot rfl hs hchanged⟩

end Edit

end KeelsonDocker.WriteRun
