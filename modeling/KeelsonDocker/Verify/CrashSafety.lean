import KeelsonDocker.Verify.CompareAndSwap

/-!
# What is left when the process dies

The process may be killed between any two system calls, with a save under way and others waiting, and be
started again on the tree as it then is, any number of times. A file that can be asked for is never found
half written: it is as it was, or the whole of what some request said (`crash_safe`). What each life may
leave behind is one temporary file, under a name that nobody can ask for.
-/

namespace KeelsonDocker.WriteRun

open FileSystem FileTree PlatformPaths PlatformWrite

section

variable {ι : Type} {ctx : PlatformContext} {host : Host} {raws : ι → Bytes} {i : ι}
  {t t₀ t₁ t' : FileTree Bytes} {phase : Phase} {saving : Saving} {chance : Chance} {path : Path}
  {tmp : Temp} {data : Bytes} {sent : Set Bytes} {n : Nat}

/-! ### Names -/

/-- A name that `mkstemp` is given to make up. -/
def IsTempName (name : String) : Prop := ∃ path random, name = tempName path random

theorem suffix_tempName (path : Path) (random : String) : suffix (tempName path random) = ".tmp" := by
  have hchars : (tempName path random).toList.reverse =
      'p' :: 'm' :: 't' :: '.' :: ("." ++ pathName path ++ "." ++ random).toList.reverse := by
    simp [tempName]
  have hlength : (tempName path random).toList.length =
      (pathName path).toList.length + random.toList.length + 6 := by
    simp only [tempName, String.toList_append, List.length_append]
    simp
    omega
  have hlast : (tempName path random).toList.reverse.takeWhile (· ≠ '.') = ['p', 'm', 't'] := by
    rw [hchars]
    rfl
  simp only [suffix, hlast]
  rw [if_pos ⟨by simp, by rw [hlength]; simp⟩]
  rfl

/-- Nobody can ask for a temporary file. -/
theorem IsTempName.not_allowed {name : String} (h : IsTempName name) : isAllowedName name = false := by
  obtain ⟨path, random, rfl⟩ := h
  have hne : tempName path random ≠ ".env" := by
    intro heq
    have hsuffix := suffix_tempName path random
    rw [heq] at hsuffix
    exact absurd hsuffix (by decide)
  unfold isAllowedName
  rw [suffix_tempName]
  simp only [ALLOWED_NAMES, List.mem_singleton, hne, decide_false, Bool.false_or]
  decide

/-- The place that a thread has found may be asked for. -/
def Phase.Named : Phase → Prop
  | .relating _ path _ | .rerooting _ path _ _ => isAllowedName (pathName path) = true
  | .waiting save _ => isAllowedName (pathName save.path) = true
  | _ => True

/-- The temporary file has a name of its kind. -/
def StageNamed : PlatformWrite.Stage → Prop
  | .writing _ tmp | .syncing _ tmp | .chmodding _ tmp | .replacing tmp | .cleaning tmp _ =>
    IsTempName tmp.name
  | _ => True

structure Saving.Named (saving : Saving) : Prop where
  target : isAllowedName (pathName saving.save.path) = true
  stage : StageNamed saving.stage

theorem Phase.Named.look (h : phase.Named) {raw : Bytes} : (look ctx host raw t phase).Named := by
  cases phase with
  | waiting | refused | ended => exact h
  | arrived =>
    simp only [WriteRun.look]
    split
    · trivial
    · split <;> trivial
  | rooting => simp only [WriteRun.look]; split <;> trivial
  | placing request rootReal r =>
    simp only [WriteRun.look]
    split
    · trivial
    · split
      · trivial
      · exact (checkPlace_eq_ok.mp ‹_›).2
  | relating => simp only [WriteRun.look]; split <;> exact h
  | rerooting =>
    simp only [WriteRun.look, decided]
    split
    · exact h
    · split
      · trivial
      · split
        · trivial
        · exact h

theorem Saving.Named.carry (h : saving.Named) : (carry host chance saving t).1.Named := by
  obtain ⟨save, rel, stage⟩ := saving
  refine ⟨h.target, ?_⟩
  have hstage := h.stage
  cases stage with
  | ended => exact hstage
  | checking | preparing => simp only [WriteRun.carry, advance]; split <;> trivial
  | creating mode tries =>
    cases tries with
    | zero => trivial
    | succ tries =>
      simp only [WriteRun.carry, advance]
      split
      · trivial
      · split
        · exact ⟨_, _, rfl⟩
        · trivial
        · trivial
  | writing | syncing => simp only [WriteRun.carry, advance]; split <;> exact hstage
  | chmodding | replacing =>
    simp only [WriteRun.carry, advance]
    split
    · exact hstage
    · split
      · first | exact hstage | trivial
      · exact hstage
  | cleaning => simp only [WriteRun.carry, advance]; split <;> trivial

theorem rules_named (ctx : PlatformContext) (host : Host) (raws : ι → Bytes) :
    Critical.Rules (program ctx host raws) (fun _ _ => Phase.Named) fun _ _ saving _ => saving.Named where
  roam h hroam := hroam ▸ h.look
  enter h henter := by
    obtain ⟨save, rel, rfl, rfl⟩ := henter
    exact ⟨h, trivial⟩
  work h hwork := by
    obtain ⟨chance, hwork⟩ := hwork
    cases hwork
    exact h.carry
  stands _ _ h := h
  leave _ hleave := by
    obtain ⟨_, _, _, _, rfl⟩ := hleave
    trivial

/-! ### One life -/

/-- A request says that this is to be the file. -/
def Sent (host : Host) (sent : Set Bytes) (content : Bytes) : Prop :=
  ∃ raw ∈ sent, ∃ baseSha256, Asked host raw content baseSha256

/-- What stands here stood here before, or is the whole of what a request said. -/
def Whole (host : Host) (sent : Set Bytes) (t t' : FileTree Bytes) (path : Path) : Prop :=
  t'.node path = t.node path ∨ ∃ mode content, t'.node path = some (.file mode content) ∧ Sent host sent content

theorem Whole.trans (h : Whole host sent t₀ t path) (h' : Whole host sent t t' path) :
    Whole host sent t₀ t' path := by
  rcases h' with hsame | hnew
  · exact h.imp hsame.trans fun ⟨mode, content, hn, hsent⟩ => ⟨mode, content, hsame.trans hn, hsent⟩
  · exact .inr hnew

/-- What a life leaves behind: whole files, and one new temporary file at most, at the place `o`. -/
structure LeftBehind (host : Host) (sent : Set Bytes) (t t' : FileTree Bytes) (o : Option Path) : Prop where
  whole : ∀ path, isAllowedName (pathName path) = true → Whole host sent t t' path
  other : ∀ path, isAllowedName (pathName path) = false → t'.node path ≠ t.node path →
    o = some path ∧ t.node path = none ∧ IsTempName (pathName path)

theorem LeftBehind.of_same (h : Same t t') (o : Option Path) : LeftBehind host sent t t' o where
  whole path _ := .inl (congrFun h.node path)
  other path _ hne := absurd (congrFun h.node path) hne

theorem LeftBehind.after {o : Option Path} (h : LeftBehind host sent t₀ t none) (h' : LeftBehind host sent t t' o) :
    LeftBehind host sent t₀ t' o where
  whole path hname := (h.whole path hname).trans (h'.whole path hname)
  other path hname hne := by
    have hsame : t.node path = t₀.node path := by
      by_contra hne'
      exact nomatch (h.other path hname hne').1
    rw [← hsame] at hne ⊢
    exact h'.other path hname hne

/-- A save that has been carried through leaves the whole content. -/
theorem leftBehind_of_completed (h : Inside host raws i t saving t') (hn : saving.Named)
    (hc : Completed saving) (hsent : raws i ∈ sent) : LeftBehind host sent t t' none := by
  obtain ⟨mode, hsets⟩ := (h.landed hc).sets
  refine ⟨fun path hname => ?_, fun path hname hne => ?_⟩
  · by_cases hpath : path = saving.save.path
    · subst hpath
      exact .inr ⟨mode, _, hsets.node_self, raws i, hsent, _, h.asked⟩
    · exact .inl (hsets.node_of_ne hpath)
  · have hpath : path ≠ saving.save.path := by
      rintro rfl
      rw [hn.target] at hname
      cases hname
    exact absurd (hsets.node_of_ne hpath) hne

/-- Beside the temporary file nothing is changed. -/
theorem leftBehind_of_staged {save : Save} (h : Staged save t t' tmp data) (hn : IsTempName tmp.name) :
    LeftBehind host sent t t' (some tmp.place) := by
  obtain ⟨mode, hsets⟩ := h.sets
  obtain ⟨d, -, -, hplace⟩ := h.beside
  have hname : IsTempName (pathName tmp.place) := by simpa [hplace, pathName] using hn
  refine ⟨fun path hallowed => .inl (hsets.node_of_ne ?_), fun path _ hne => ?_⟩
  · rintro rfl
    rw [hname.not_allowed] at hallowed
    cases hallowed
  · by_cases hpath : path = tmp.place
    · subst hpath
      exact ⟨rfl, h.fresh, hname⟩
    · exact absurd (hsets.node_of_ne hpath) hne

/-- Under way, a save has changed nothing but its temporary file. -/
theorem leftBehind_of_inside (h : Inside host raws i t saving t') (hn : saving.Named)
    (hsent : raws i ∈ sent) : ∃ o, LeftBehind host sent t t' o := by
  obtain ⟨save, rel, stage⟩ := saving
  have hholds := h.holds
  have hstage := hn.stage
  cases stage with
  | checking =>
    cases hholds
    exact ⟨none, .of_same (.refl _) none⟩
  | preparing | creating =>
    obtain ⟨rfl, -⟩ := hholds
    exact ⟨none, .of_same (.refl _) none⟩
  | writing | syncing | chmodding | replacing => exact ⟨_, leftBehind_of_staged hholds.2 hstage⟩
  | cleaning =>
    obtain ⟨_, hstaged⟩ := hholds
    exact ⟨_, leftBehind_of_staged hstaged hstage⟩
  | ended result =>
    cases result with
    | ok => exact ⟨none, leftBehind_of_completed h hn rfl hsent⟩
    | error => exact ⟨none, .of_same hholds none⟩

/-- Wherever a life is cut off. -/
theorem Reached.leftBehind [DecidableEq ι] {s : State ι} (h : Reached ctx host raws t s)
    (hsent : ∀ i, raws i ∈ sent) : ∃ o, LeftBehind host sent t s.shared o := by
  have hrules := (rules ctx host raws).and (rules_named ctx host raws)
  have hstart (i : ι) : Good host raws i t .arrived ∧ Phase.Named .arrived := ⟨trivial, trivial⟩
  have horderly := hrules.reached (Critical.orderly_start hstart) h
  have hsettled : LeftBehind host sent t s.settled none := by
    refine horderly.chain.keeps (K := fun t' => LeftBehind host sent t t' none) (.of_same (.refl t) none) ?_
    intro turn hturn hbefore
    obtain ⟨⟨hinside, hnamed⟩, hleave⟩ := horderly.taken turn hturn
    apply hbefore.after
    by_cases hc : Completed turn.ended
    · exact leftBehind_of_completed hinside hnamed hc (hsent _)
    · obtain ⟨_, _, _, hended, _⟩ := hleave
      exact .of_same (hinside.same hended hc) none
  cases hholder : s.holder with
  | none =>
    simp only [Critical.State.settled, hholder] at hsettled
    exact ⟨none, hsettled⟩
  | some holder =>
    simp only [Critical.State.settled, hholder] at hsettled
    obtain ⟨hinside, hnamed⟩ := horderly.inside holder hholder
    obtain ⟨o, ho⟩ := leftBehind_of_inside hinside hnamed (hsent _)
    exact ⟨o, hsettled.after ho⟩

/-! ### Any number of lives -/

/-- The trees that `n` lives of the process can leave, each with flags and requests of its own, each begun
on the tree that the one before left when it was killed. -/
inductive Survives (host : Host) (sent : Set Bytes) (t₀ : FileTree Bytes) : Nat → FileTree Bytes → Prop
  | untouched : Survives host sent t₀ 0 t₀
  | life {n : Nat} {t : FileTree Bytes} {ι : Type} [DecidableEq ι] {ctx : PlatformContext}
      {raws : ι → Bytes} {s : State ι} : Survives host sent t₀ n t → (∀ i, raws i ∈ sent) →
      Reached ctx host raws t s → Survives host sent t₀ (n + 1) s.shared

/-- No file is half written, and there is one temporary file for each life at most. -/
structure Intact (host : Host) (sent : Set Bytes) (t₀ : FileTree Bytes) (n : Nat) (t : FileTree Bytes) :
    Prop where
  whole : ∀ path, isAllowedName (pathName path) = true → Whole host sent t₀ t path
  debris : ∃ places : List Path, places.length ≤ n ∧ ∀ path, isAllowedName (pathName path) = false →
    t.node path ≠ t₀.node path → path ∈ places ∧ t₀.node path = none ∧ IsTempName (pathName path)

/-- **No crash leaves a file half written**, however often the process is killed and wherever. -/
theorem crash_safe (h : Survives host sent t₀ n t) : Intact host sent t₀ n t := by
  induction h with
  | untouched => exact ⟨fun _ _ => .inl rfl, [], le_rfl, fun _ _ hne => absurd rfl hne⟩
  | @life n t _ _ _ _ s _ hsent hreached ih =>
    obtain ⟨o, hleaves⟩ := hreached.leftBehind hsent
    obtain ⟨places, hlength, hplaces⟩ := ih.debris
    refine ⟨fun path hname => (ih.whole path hname).trans (hleaves.whole path hname),
      o.toList ++ places, ?_, fun path hname hne => ?_⟩
    · have ho : o.toList.length ≤ 1 := by cases o <;> simp
      rw [List.length_append]
      omega
    · by_cases hnew : s.shared.node path = t.node path
      · rw [hnew] at hne
        obtain ⟨hmem, hplace⟩ := hplaces path hname hne
        exact ⟨List.mem_append_right _ hmem, hplace⟩
      · obtain ⟨rfl, hnone, htemp⟩ := hleaves.other path hname hnew
        refine ⟨by simp, ?_, htemp⟩
        by_contra hsome
        exact hsome (hplaces path hname fun heq => hsome (heq ▸ hnone)).2.1

end

namespace Edit

/-- What the first four stages of the save make of the tree. -/
def cutOff : FileTree Bytes :=
  (run sha256Of ⟨["srv", "notes.md"], [110], "#o"⟩ host.chances 4 0 .checking tree).2

/-- Killed there, the process leaves the note as it was and the temporary file beside it. -/
theorem crash_safe_edit : Survives host {[]} tree 1 cutOff ∧ Intact host {[]} tree 1 cutOff ∧
    cutOff.node ["srv", "notes.md"] = some (.file 0o644 [111]) ∧
    cutOff.node ["srv", ".notes.md.k3j9.tmp"] = some (.file 0o600 [110]) := by
  have hstart : Reached ctx host (fun _ : Unit => []) tree (start tree) := .refl
  have hbefore : before ctx host [] tree = .waiting ⟨["srv", "notes.md"], [110], "#o"⟩ "notes.md" := rfl
  obtain ⟨s, hs, hlocal, hfree, hshared⟩ : ∃ s, Reached ctx host (fun _ : Unit => []) tree s ∧
      s.locals () = before ctx host [] tree ∧ s.holder = none ∧ s.shared = tree :=
    ⟨_, hstart.roams (i := ()) nofun looks_before, by simp [start], rfl, rfl⟩
  have hentered := hs.tail (.enter hfree ⟨_, _, hlocal.trans hbefore, rfl⟩)
  have hcut := hentered.works rfl (carries_run host.chances 4 0 .checking s.shared)
  rw [hshared] at hcut
  have hsent (i : Unit) : (fun _ : Unit => []) i ∈ ({[]} : Set Bytes) := rfl
  have hlife : Survives host {[]} tree 1 cutOff := .life .untouched hsent hcut
  exact ⟨hlife, crash_safe hlife, by decide, by decide⟩

end Edit

end KeelsonDocker.WriteRun
