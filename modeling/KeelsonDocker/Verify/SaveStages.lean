import KeelsonDocker.PlatformWrite

/-!
# What a save does to the tree

Carried through under the lock, a save finds the tree it began with changed by its own temporary file
alone (`Holds`), whatever call fails; at its end either the file has the new content and nothing else is
changed, or nothing is.
-/

namespace KeelsonDocker.PlatformWrite

open Effect FileSystem FileTree

variable {sha256Of : Bytes → String} {save : Save} {t₀ t t' : FileTree Bytes} {tmp : Temp}
  {content data : Bytes} {stage : Stage} {chance : Chance} {d : Path} {mode : Nat}

/-! ### What the base names -/

/-- There is no file where the base says so, and there are the bytes it names where it names some. -/
def Licensed (sha256Of : Bytes → String) (save : Save) (t : FileTree Bytes) : Prop :=
  save.baseSha256 = "" ∧ isFile t save.path = .ok false ∨
    save.baseSha256 ≠ "" ∧ ∃ data, t.read save.path = .ok data ∧ sha256Of data = save.baseSha256

theorem read_eq_ok {p : Path} :
    t.read p = .ok data ↔
      ∃ k mode, t.walk p = .ok k ∧ t.node k = some (.file mode data) ∧ t.unreadable k = none := by
  unfold FileTree.read
  cases hw : t.walk p with
  | error e => simp
  | ok k =>
    cases hn : t.node k with
    | none => simp [hn]
    | some nd =>
      cases nd with
      | dir => simp [hn]
      | link => simp [hn]
      | file mode content =>
        cases hr : t.unreadable k <;> simp [hn, hr]

theorem isFile_eq_true {p : Path} :
    isFile t p = .ok true ↔ ∃ k mode data, t.walk p = .ok k ∧ t.node k = some (.file mode data) := by
  unfold isFile isKind FileTree.stat
  cases hw : t.walk p with
  | error e =>
    simp only [reduceCtorEq, false_and, exists_false, iff_false]
    split <;> simp
  | ok k =>
    cases hn : t.node k with
    | none => simp [hn, ignoredErrno]
    | some nd => cases nd <;> simp [hn, Node.isFile]

/-- `check_base_sha` passes a save exactly when its base licenses it. -/
theorem checkBaseSha_passes :
    (∃ current, checkBaseSha sha256Of t save.path save.baseSha256 = .ok current) ↔
      Licensed sha256Of save t := by
  constructor
  · rintro ⟨current, h⟩
    obtain ⟨there, hthere, h⟩ := bind_eq_ok.mp h
    by_cases hbase : save.baseSha256 = ""
    · cases there with
      | true => simp [hbase] at h
      | false => exact .inl ⟨hbase, hthere⟩
    · rw [if_neg hbase] at h
      cases there with
      | false => simp at h
      | true =>
        obtain ⟨data, hread, h⟩ := bind_eq_ok.mp h
        cases hr : t.read save.path with
        | error e => simp [hr, sys] at hread
        | ok data' =>
          simp only [hr, sys, Except.ok.injEq] at hread
          subst hread
          by_cases hsha : sha256Of data' = save.baseSha256
          · exact .inr ⟨hbase, data', hr, hsha⟩
          · simp [hsha] at h
  · rintro (⟨hbase, hfile⟩ | ⟨hbase, data, hread, hsha⟩)
    · exact ⟨[], by simp [checkBaseSha, hbase, hfile, bind, Except.bind]⟩
    · obtain ⟨k, mode, hk, hn, _⟩ := read_eq_ok.mp hread
      have hfile : isFile t save.path = .ok true := isFile_eq_true.mpr ⟨k, mode, data, hk, hn⟩
      exact ⟨data, by simp [checkBaseSha, hbase, hfile, hread, hsha, sys, bind, Except.bind]⟩

/-! ### The temporary file -/

/-- The temporary file stands beside the target, and nothing else is changed. -/
structure Staged (save : Save) (t₀ t : FileTree Bytes) (tmp : Temp) (content : Bytes) : Prop where
  beside : ∃ d, t₀.walk (parent save.path) = .ok d ∧ t₀.node d = some .dir ∧
    tmp.place = d ++ [tmp.name]
  fresh : t₀.node tmp.place = none
  allowed : t₀.refused tmp.place = none
  other : tmp.name ≠ pathName save.path
  sets : ∃ mode, Sets t₀ t tmp.place (some (.file mode content))

theorem tempName_ne (path : Path) (random : String) : tempName path random ≠ pathName path := by
  intro h
  have hlen := congrArg String.length h
  have hdot : ".".length = 1 := rfl
  simp only [tempName, String.length_append] at hlen
  omega

theorem staged_of_create {random : String} {place : Path}
    (h : t.create (parent save.path) (tempName save.path random) 0o600 [] = .ok (place, t')) :
    Staged save t t' ⟨tempName save.path random, place⟩ [] := by
  obtain ⟨d, hd, hdir, hplace, hfresh, hallowed, hsets⟩ := sets_of_create h
  exact ⟨⟨d, hd, hdir, hplace⟩, hfresh, hallowed, tempName_ne _ _, _, hsets⟩

namespace Staged

theorem sub (h : Staged save t₀ t tmp content) : Sub t₀ t := by
  obtain ⟨_, hsets⟩ := h.sets
  exact hsets.sub h.fresh

theorem walk_parent (h : Staged save t₀ t tmp content) (hd : t₀.walk (parent save.path) = .ok d) :
    t.walk (parent save.path) = .ok d := by
  obtain ⟨n, hn, hw⟩ := walk_eq_ok.mp hd
  exact walk_eq_ok.mpr ⟨n, hn, hw.mono h.sub⟩

theorem lookup (h : Staged save t₀ t tmp content) (hplace : tmp.place = d ++ [tmp.name]) :
    ∃ mode, t.lookup d tmp.name = .ok (.file mode content) := by
  obtain ⟨mode, hsets⟩ := h.sets
  refine ⟨mode, lookup_eq_ok.mpr ⟨?_, ?_⟩⟩
  · rw [← hplace, hsets.refused, h.allowed]
  · rw [← hplace, hsets.node_self]

/-- The temporary file is found under its own name. -/
theorem walk_tmp (h : Staged save t₀ t tmp content) :
    t.walk (parent save.path ++ [tmp.name]) = .ok tmp.place := by
  obtain ⟨d, hd, _, hplace⟩ := h.beside
  obtain ⟨n, hn, hw⟩ := walk_eq_ok.mp (h.walk_parent hd)
  obtain ⟨mode, hl⟩ := h.lookup hplace
  have hlast : Walk t 0 d [tmp.name] tmp.place := by
    rw [hplace]
    exact .down hl rfl .done
  exact walk_eq_ok.mpr ⟨n, hn, hw.append hlast⟩

theorem revise (h : Staged save t₀ t tmp content) (f : Nat → Bytes → Nat × Bytes)
    (hf : ∀ mode, (f mode content).2 = data) : Staged save t₀ (t.revise tmp.place f) tmp data := by
  obtain ⟨mode, hsets⟩ := h.sets
  refine { h with sets := ⟨(f mode content).1, ?_⟩ }
  have hrevise := sets_revise f hsets.node_self
  rw [hf] at hrevise
  exact hsets.trans hrevise

theorem chmod (h : Staged save t₀ t tmp content) (mode : Nat) :
    t.chmod (parent save.path ++ [tmp.name]) mode =
      .ok (t.revise tmp.place fun _ content => (mode, content)) :=
  bind_eq_ok.mpr ⟨_, h.walk_tmp, rfl⟩

/-- Removing the temporary file leaves the tree as it was. -/
theorem unlink (h : Staged save t₀ t tmp content) :
    ∃ t', t.unlink (parent save.path) tmp.name = .ok t' ∧ Same t₀ t' := by
  obtain ⟨d, hd, _, hplace⟩ := h.beside
  obtain ⟨mode, hl⟩ := h.lookup hplace
  obtain ⟨t', ht', hgone⟩ := unlink_eq_ok (h.walk_parent hd) hl
  obtain ⟨_, hsets⟩ := h.sets
  rw [← hplace] at hgone
  exact ⟨t', ht', (hsets.trans hgone).cancel h.fresh⟩

end Staged

theorem Staged.skeleton_sub (h : Staged save t₀ t tmp content) : Sub t.skeleton t₀.skeleton := by
  obtain ⟨_, hsets⟩ := h.sets
  exact hsets.skeleton_sub rfl

theorem Staged.skeleton_sup (h : Staged save t₀ t tmp content) : Sub t₀.skeleton t.skeleton := by
  obtain ⟨_, hsets⟩ := h.sets
  exact hsets.skeleton_sup h.fresh

/-! ### Each stage -/

/-- The target has the new content and nothing else is changed. -/
def Replaced (save : Save) (t₀ t : FileTree Bytes) : Prop :=
  ∃ d mode, t₀.walk (parent save.path) = .ok d ∧ t₀.node d = some .dir ∧
    t₀.refused (d ++ [pathName save.path]) = none ∧
    Sets t₀ t (d ++ [pathName save.path]) (some (.file mode save.content)) ∧
    t.unreadable (d ++ [pathName save.path]) = none

theorem Staged.rename (h : Staged save t₀ t tmp save.content)
    (hren : t.rename (parent save.path) tmp.name (parent save.path) (pathName save.path) = .ok t') :
    Replaced save t₀ t' := by
  obtain ⟨d, hd, hdir, hplace⟩ := h.beside
  obtain ⟨mode, hsets⟩ := h.sets
  obtain ⟨mode', hl⟩ := h.lookup hplace
  have hd' := h.walk_parent hd
  have hne : d ++ [tmp.name] ≠ d ++ [pathName save.path] := by simpa using h.other
  obtain ⟨s, hrep, hput, hread, hgone⟩ := sets_of_rename hren hd' hd' hl hne
  rw [← hplace] at hgone hne
  have hdir' : t.node d = some .dir := by
    rw [hsets.node_of_ne, hdir]
    rintro rfl
    rw [h.fresh] at hdir
    cases hdir
  refine ⟨d, mode', hd, hdir, ?_, hsets.move h.fresh hne.symm hput hgone, ?_⟩
  · rw [← hsets.refused]
    exact (replaceable_eq_ok hrep hdir').1
  · rw [hgone.unreadable _ hne.symm (by simp [hput.node_self]), hread]

/-- What holds of the tree at each stage of a save that began with `t₀`. -/
def Holds (sha256Of : Bytes → String) (save : Save) (t₀ : FileTree Bytes) : Stage → FileTree Bytes → Prop
  | .checking, t => t = t₀
  | .preparing, t | .creating .., t => t = t₀ ∧ Licensed sha256Of save t₀
  | .writing _ tmp, t => Licensed sha256Of save t₀ ∧ Staged save t₀ t tmp []
  | .syncing _ tmp, t | .chmodding _ tmp, t | .replacing tmp, t =>
    Licensed sha256Of save t₀ ∧ Staged save t₀ t tmp save.content
  | .cleaning tmp _, t => ∃ content, Staged save t₀ t tmp content
  | .ended (.ok _), t => Licensed sha256Of save t₀ ∧ Replaced save t₀ t
  | .ended (.error _), t => Same t₀ t

theorem Holds.advance (h : Holds sha256Of save t₀ stage t) :
    Holds sha256Of save t₀ (advance sha256Of save chance stage t).1
      (advance sha256Of save chance stage t).2 := by
  cases stage with
  | checking =>
    cases h
    cases hcheck : checkBaseSha sha256Of t₀ save.path save.baseSha256 with
    | ok current =>
      simp only [PlatformWrite.advance, hcheck]
      exact ⟨rfl, checkBaseSha_passes.mp ⟨current, hcheck⟩⟩
    | error e =>
      simp only [PlatformWrite.advance, hcheck]
      exact Same.refl t₀
  | preparing =>
    obtain ⟨rfl, hlicensed⟩ := h
    cases hmode : targetMode t save.path with
    | ok mode =>
      simp only [PlatformWrite.advance, hmode]
      exact ⟨rfl, hlicensed⟩
    | error e =>
      simp only [PlatformWrite.advance, hmode]
      exact Same.refl t
  | creating mode tries =>
    obtain ⟨rfl, hlicensed⟩ := h
    cases tries with
    | zero => exact Same.refl t
    | succ tries =>
      cases hfault : chance.fault with
      | some e =>
        simp only [PlatformWrite.advance, hfault]
        exact Same.refl t
      | none =>
        cases hcreate : t.create (parent save.path) (tempName save.path chance.random) 0o600 [] with
        | ok r =>
          obtain ⟨place, t'⟩ := r
          simp only [PlatformWrite.advance, hfault, hcreate]
          exact ⟨hlicensed, staged_of_create hcreate⟩
        | error e =>
          cases e <;> simp only [PlatformWrite.advance, hfault, hcreate]
          case exist => exact ⟨rfl, hlicensed⟩
          all_goals exact Same.refl t
  | writing mode tmp =>
    obtain ⟨hlicensed, hstaged⟩ := h
    cases hfault : chance.fault with
    | some e =>
      simp only [PlatformWrite.advance, hfault]
      exact ⟨chance.written, hstaged.revise _ fun _ => rfl⟩
    | none =>
      simp only [PlatformWrite.advance, hfault]
      exact ⟨hlicensed, hstaged.revise _ fun _ => rfl⟩
  | syncing mode tmp =>
    cases hfault : chance.fault with
    | some e =>
      simp only [PlatformWrite.advance, hfault]
      exact ⟨_, h.2⟩
    | none =>
      simp only [PlatformWrite.advance, hfault]
      exact h
  | chmodding mode tmp =>
    obtain ⟨hlicensed, hstaged⟩ := h
    cases hfault : chance.fault with
    | some e =>
      simp only [PlatformWrite.advance, hfault]
      exact ⟨_, hstaged⟩
    | none =>
      simp only [PlatformWrite.advance, hfault, hstaged.chmod mode]
      exact ⟨hlicensed, hstaged.revise _ fun _ => rfl⟩
  | replacing tmp =>
    obtain ⟨hlicensed, hstaged⟩ := h
    cases hfault : chance.fault with
    | some e =>
      simp only [PlatformWrite.advance, hfault]
      exact ⟨_, hstaged⟩
    | none =>
      cases hren : t.rename (parent save.path) tmp.name (parent save.path) (pathName save.path) with
      | ok t' =>
        simp only [PlatformWrite.advance, hfault, hren]
        exact ⟨hlicensed, hstaged.rename hren⟩
      | error e =>
        simp only [PlatformWrite.advance, hfault, hren]
        exact ⟨_, hstaged⟩
  | cleaning tmp exc =>
    obtain ⟨content, hstaged⟩ := h
    obtain ⟨t', hunlink, hsame⟩ := hstaged.unlink
    simp only [PlatformWrite.advance, hunlink]
    exact hsame
  | ended result => exact h

/-- At no stage is there a link that was not there before. -/
theorem Holds.skeleton_sub (h : Holds sha256Of save t₀ stage t) : Sub t.skeleton t₀.skeleton := by
  cases stage with
  | checking => exact h ▸ Sub.refl _
  | preparing | creating => exact h.1 ▸ Sub.refl _
  | writing | syncing | chmodding | replacing => exact h.2.skeleton_sub
  | cleaning =>
    obtain ⟨_, hstaged⟩ := h
    exact hstaged.skeleton_sub
  | ended result =>
    cases result with
    | ok _ =>
      obtain ⟨_, _, _, _, _, _, hsets, _⟩ := h
      exact hsets.skeleton_sub rfl
    | error _ => exact Same.skeleton_sub h

/-- Until a save ends, all links are still there. -/
theorem Holds.skeleton_sup (h : Holds sha256Of save t₀ stage t) (hne : ∀ result, stage ≠ .ended result) :
    Sub t₀.skeleton t.skeleton := by
  cases stage with
  | checking => exact h ▸ Sub.refl _
  | preparing | creating => exact h.1 ▸ Sub.refl _
  | writing | syncing | chmodding | replacing => exact h.2.skeleton_sup
  | cleaning =>
    obtain ⟨_, hstaged⟩ := h
    exact hstaged.skeleton_sup
  | ended result => exact absurd rfl (hne result)

/-! ### The whole save -/

variable {chances : Nat → Chance} {left i : Nat}

private theorem run_ended_eq (result : Except Exn Unit) :
    run sha256Of save chances left i (.ended result) t = (.ended result, t) := by
  cases left <;> rfl

private theorem run_succ (h : ∀ result, stage ≠ .ended result) :
    run sha256Of save chances (left + 1) i stage t =
      run sha256Of save chances left (i + 1) (advance sha256Of save (chances i) stage t).1
        (advance sha256Of save (chances i) stage t).2 := by
  cases stage with
  | ended result => exact absurd rfl (h result)
  | _ => rfl

private theorem ended_or (stage : Stage) :
    (∃ result, stage = .ended result) ∨ ∀ result, stage ≠ .ended result := by
  cases stage with
  | ended result => exact .inl ⟨result, rfl⟩
  | _ => exact .inr fun _ => nofun

theorem Holds.run (chances : Nat → Chance) (left i : Nat) (h : Holds sha256Of save t₀ stage t) :
    Holds sha256Of save t₀ (run sha256Of save chances left i stage t).1
      (run sha256Of save chances left i stage t).2 := by
  induction left generalizing i stage t with
  | zero => exact h
  | succ left ih =>
    rcases ended_or stage with ⟨result, rfl⟩ | hne
    · rw [run_ended_eq]
      exact h
    · rw [run_succ hne]
      exact ih (i + 1) h.advance

theorem advance_left (sha256Of : Bytes → String) (save : Save) (chance : Chance) (t : FileTree Bytes)
    (h : ∀ result, stage ≠ .ended result) :
    (advance sha256Of save chance stage t).1.left < stage.left := by
  cases stage with
  | ended result => exact absurd rfl (h result)
  | creating mode tries =>
    cases tries <;> simp only [PlatformWrite.advance] <;> (repeat' split) <;> simp [Stage.left]
  | checking | preparing | writing | syncing | chmodding | replacing | cleaning =>
    simp only [PlatformWrite.advance]
    repeat' split
    all_goals simp [Stage.left]

/-- There are stages enough. -/
theorem run_ended (chances : Nat → Chance) (i : Nat) (h : stage.left ≤ left) :
    ∃ result, (run sha256Of save chances left i stage t).1 = .ended result := by
  induction left generalizing i stage t with
  | zero =>
    rcases ended_or stage with hended | hne
    · exact hended
    · have := advance_left sha256Of save {} t hne
      omega
  | succ left ih =>
    rcases ended_or stage with ⟨result, rfl⟩ | hne
    · exact ⟨result, by rw [run_ended_eq]⟩
    · have := advance_left sha256Of save (chances i) t hne
      rw [run_succ hne]
      exact ih (i + 1) (by omega)

theorem saveFile_eq {result : Except Exn Unit}
    (h : (run sha256Of save chances Stage.checking.left 0 .checking t).1 = .ended result) :
    saveFile sha256Of save chances t =
      (result, (run sha256Of save chances Stage.checking.left 0 .checking t).2) := by
  unfold saveFile
  split
  · rename_i heq
    rw [heq] at h ⊢
    cases h
    rfl
  · rename_i hne heq
    rw [heq] at h
    exact absurd h (hne result)

/-- **A save is all or nothing.** -/
theorem saveFile_spec {result : Except Exn Unit}
    (h : saveFile sha256Of save chances t = (result, t')) :
    match result with
    | .ok _ => Licensed sha256Of save t ∧ Replaced save t t'
    | .error _ => Same t t' := by
  have hholds : Holds sha256Of save t .checking t := rfl
  have hrun := hholds.run chances Stage.checking.left 0
  obtain ⟨r, hr⟩ := run_ended (t := t) chances 0
    (Nat.le_refl Stage.checking.left)
  have hsave := saveFile_eq hr
  rw [hr] at hrun
  rw [h] at hsave
  cases hsave
  cases result with
  | ok _ => exact hrun
  | error e => exact hrun

/-! ### A save to a resolved path -/

/-- What a completed save found, and what it left. -/
structure Saved (sha256Of : Bytes → String) (save : Save) (t t' : FileTree Bytes) : Prop where
  found : Licensed sha256Of save t
  left : ∃ mode, t'.stat save.path = .ok (.file mode save.content)
  others : ∀ q, q ≠ save.path → t'.node q = t.node q
  overwrites : ∀ mode data, t.node save.path = some (.file mode data) →
    save.baseSha256 ≠ "" ∧ sha256Of data = save.baseSha256

/-- To a path whose links lead to no directory, the file is put at that very place. -/
theorem Replaced.at_path (h : Replaced save t t') (hclean : Clean t.skeleton save.path)
    (hne : save.path ≠ []) :
    Located t (parent save.path) ∧ t.refused save.path = none ∧
      ∃ mode, Sets t t' save.path (some (.file mode save.content)) ∧ t'.unreadable save.path = none := by
  obtain ⟨d, mode, hd, hdir, hrefused, hsets, hread⟩ := h
  obtain ⟨n, _, hw⟩ := walk_eq_ok.mp hd
  obtain ⟨hl, rfl⟩ := hclean.dropLast.located (hw.skeleton hdir)
  rw [dropLast_pathName hne] at hrefused hsets hread
  exact ⟨hl.mono (sub_skeleton t), hrefused, mode, hsets, hread⟩

theorem located_of_set {p : Path} {nd : Node Bytes} (hp : p ≠ []) (hl : Located t (parent p))
    (hrefused : t.refused p = none) (hsets : Sets t t' p (some nd)) (hnd : nd.isLink = false) :
    Located t' p := by
  rcases List.eq_nil_or_concat' p with rfl | ⟨q, name, rfl⟩
  · exact absurd rfl hp
  · rw [parent, List.dropLast_concat] at hl
    refine located_concat.mpr ⟨hl.congr hsets.refused fun r hr => hsets.node_of_ne ?_, nd, ?_, hnd⟩
    · rintro rfl
      have := hr.length_le
      simp at this
    · exact lookup_eq_ok.mpr ⟨by rw [hsets.refused, hrefused], hsets.node_self⟩

theorem Replaced.saved (hlicensed : Licensed sha256Of save t) (h : Replaced save t t')
    (hclean : Clean t.skeleton save.path) (hne : save.path ≠ []) :
    Saved sha256Of save t t' ∧ Located t' save.path ∧ t'.unreadable save.path = none := by
  obtain ⟨hl, hrefused, mode, hsets, hread⟩ := h.at_path hclean hne
  have hl' : Located t' save.path := located_of_set hne hl hrefused hsets rfl
  refine ⟨⟨hlicensed, ⟨mode, ?_⟩, fun q hq => hsets.node_of_ne hq, fun mode' data hn => ?_⟩, hl', hread⟩
  · simp [stat, hl'.walk_eq, hsets.node_self]
  · have hwalk : t.walk save.path = .ok save.path := by
      have hself : Sets t t save.path (some (.file mode' data)) :=
        ⟨by rw [← hn, Function.update_eq_self], rfl, fun _ _ _ => rfl⟩
      exact (located_of_set hne hl hrefused hself rfl).walk_eq
    rcases hlicensed with ⟨_, hfile⟩ | ⟨hbase, data', hdata, hsha⟩
    · rw [isFile_eq_true.mpr ⟨_, _, _, hwalk, hn⟩] at hfile
      cases hfile
    · obtain ⟨k, _, hk, hnk, _⟩ := read_eq_ok.mp hdata
      cases hwalk.symm.trans hk
      cases hn.symm.trans hnk
      exact ⟨hbase, hsha⟩

end KeelsonDocker.PlatformWrite
