import KeelsonDocker.PlatformPaths

/-!
# The path jail

`resolve` judges the `.git` rule on the string and the containment on the place it leads to. So what it
returns is in the repository, in fact as well as in name (`resolve_inside`), but a symbolic link can lead
there to the root itself or below a `.git`.
-/

namespace KeelsonDocker.PlatformPaths

open Effect FileSystem

variable {t : FileTree Bytes} {root : List String} {relative : String} {mustBeFile : Bool} {p k : Path}

/-- Where a path leads, following the links there are. -/
def leadsTo (t : FileTree Bytes) (root : List String) (relative : String) : Path :=
  t.realpath (t.realpath root ++ pureParts relative)

/-- The names of a place below the root. -/
def below (t : FileTree Bytes) (root : List String) (p : Path) : List String :=
  p.drop (t.realpath root).length

/-- The path is below the root, and so is whatever the kernel finds by it. -/
structure StrictlyInside (t : FileTree Bytes) (root : List String) (p : Path) : Prop where
  inside : t.realpath root <+: p
  strictly : p ≠ t.realpath root
  found : ∀ k, t.walk p = .ok k → t.realpath root <+: k ∧ k ≠ t.realpath root

/-- What the jail promises. -/
def Jailed (t : FileTree Bytes) (root : List String) (relative : String) (mustBeFile : Bool) : Prop :=
  match resolve t root relative mustBeFile with
  | .ok p =>
    StrictlyInside t root p ∧ ".git" ∉ below t root p ∧ isAllowedName (pathName p) = true
  | .error e => ∃ m, e = .path m

/-- The kernel finds nothing by a resolved path but what stands there. -/
theorem resolve_found (h : resolve t root relative mustBeFile = .ok p) (hk : t.walk p = .ok k) :
    k = p := by
  obtain ⟨_, rfl, _⟩ := resolve_eq_ok.mp h
  exact (walk_realpath hk).1

theorem resolve_inside (h : resolve t root relative mustBeFile = .ok p)
    (hne : p ≠ t.realpath root) : StrictlyInside t root p := by
  obtain ⟨_, _, hinside, _⟩ := resolve_eq_ok.mp h
  refine ⟨hinside, hne, fun k hk => ?_⟩
  rw [resolve_found h hk]
  exact ⟨hinside, hne⟩

/-! ### When the promise is kept -/

/-- The path leads to the root itself or below a `.git`. -/
def Strays (t : FileTree Bytes) (root : List String) (relative : String) : Prop :=
  leadsTo t root relative = t.realpath root ∨ ".git" ∈ below t root (leadsTo t root relative)

/-- Looking the place up fails, with an error that `is_file` does not take for an absence. -/
def Unanswered (t : FileTree Bytes) (p : Path) : Prop :=
  ∃ e, t.stat p = .error e ∧ ignoredErrno e = false

/-- A path that the rules let through neither strays, unless it must be a file and is none, nor goes
unanswered where the file is looked for. -/
def KeepsClear (t : FileTree Bytes) (root : List String) (relative : String) (mustBeFile : Bool) : Prop :=
  Shaped relative → checkPlace (t.realpath root) (leadsTo t root relative) = .ok () →
    (mustBeFile = true → ¬ Unanswered t (leadsTo t root relative)) ∧
    ((mustBeFile = true → isFile t (leadsTo t root relative) = .ok true) → ¬ Strays t root relative)

theorem isFile_error {e : Exn} (h : isFile t p = .error e) :
    Unanswered t p ∧ ∃ text, e = .os text := by
  unfold isFile isKind at h
  split at h
  · cases h
  · rename_i errno hstat
    split at h
    · cases h
    · rename_i hignored
      cases h
      exact ⟨⟨errno, hstat, by simpa using hignored⟩, _, rfl⟩

theorem isFile_of_unanswered (h : Unanswered t p) : ∃ text, isFile t p = .error (.os text) := by
  obtain ⟨errno, hstat, hignored⟩ := h
  unfold isFile isKind
  rw [hstat]
  simp only [hignored, Bool.false_eq_true, if_false]
  exact ⟨_, rfl⟩

theorem checkFile_error {e : Exn} (h : checkFile t p mustBeFile = .error e) :
    (∃ m, e = .path m) ∨ mustBeFile = true ∧ Unanswered t p := by
  unfold checkFile at h
  split at h
  · rename_i hmust
    split at h
    · cases h
    · cases h
      exact .inl ⟨_, rfl⟩
    · rename_i hfile
      cases h
      exact .inr ⟨hmust, (isFile_error hfile).1⟩
  · cases h

/-- How `resolve` fails. -/
theorem resolve_error {e : Exn} (h : resolve t root relative mustBeFile = .error e) :
    (∃ m, e = .path m) ∨
      Shaped relative ∧ checkPlace (t.realpath root) (leadsTo t root relative) = .ok () ∧
        mustBeFile = true ∧ Unanswered t (leadsTo t root relative) := by
  rcases bind_eq_error.mp h with hshape | ⟨parts, hshape, h⟩
  · exact .inl (checkShape_error hshape)
  obtain ⟨hshaped, rfl⟩ := checkShape_eq_ok.mp hshape
  rcases bind_eq_error.mp h with hplace | ⟨_, hplace, h⟩
  · exact .inl (checkPlace_error hplace)
  rcases bind_eq_error.mp h with hfile | ⟨_, _, h⟩
  · exact (checkFile_error hfile).imp_right fun ⟨hmust, hun⟩ => ⟨hshaped, hplace, hmust, hun⟩
  · cases h

theorem resolve_of_unanswered (hshaped : Shaped relative)
    (hplace : checkPlace (t.realpath root) (leadsTo t root relative) = .ok ())
    (hun : Unanswered t (leadsTo t root relative)) :
    ∃ text, resolve t root relative true = .error (.os text) := by
  obtain ⟨text, hfile⟩ := isFile_of_unanswered hun
  refine ⟨text, bind_eq_error.mpr (.inr ⟨_, checkShape_eq_ok.mpr ⟨hshaped, rfl⟩, ?_⟩)⟩
  refine bind_eq_error.mpr (.inr ⟨_, hplace, bind_eq_error.mpr (.inl ?_)⟩)
  show checkFile t (leadsTo t root relative) true = _
  simp [checkFile, hfile]

/-- **The jail holds exactly where no link leads it astray** and the file is looked for in vain or not
at all. -/
theorem jailed_iff : Jailed t root relative mustBeFile ↔ KeepsClear t root relative mustBeFile := by
  constructor
  · intro h hshaped hplace
    obtain ⟨hinside, hname⟩ := checkPlace_eq_ok.mp hplace
    constructor
    · rintro rfl hun
      obtain ⟨text, hres⟩ := resolve_of_unanswered hshaped hplace hun
      rw [Jailed, hres] at h
      obtain ⟨m, hm⟩ := h
      cases hm
    · intro hfile hstrays
      have hres : resolve t root relative mustBeFile = .ok (leadsTo t root relative) :=
        resolve_eq_ok.mpr ⟨hshaped, rfl, hinside, hname, hfile⟩
      rw [Jailed, hres] at h
      exact hstrays.elim h.1.strictly h.2.1
  · intro h
    cases hres : resolve t root relative mustBeFile with
    | ok p =>
      obtain ⟨hshaped, rfl, hinside, hname, hfile⟩ := resolve_eq_ok.mp hres
      have hclear := (h hshaped (checkPlace_eq_ok.mpr ⟨hinside, hname⟩)).2 hfile
      rw [Jailed, hres]
      exact ⟨resolve_inside hres fun heq => hclear (.inl heq), fun hgit => hclear (.inr hgit), hname⟩
    | error e =>
      rw [Jailed, hres]
      rcases resolve_error hres with hpath | ⟨hshaped, hplace, hmust, hun⟩
      · exact hpath
      · exact absurd hun ((h hshaped hplace).1 hmust)

/-- A path of at least one part that meets no link does not stray. -/
theorem not_strays (hshaped : Shaped relative) (hparts : pureParts relative ≠ [])
    (hmeets : leadsTo t root relative = t.realpath root ++ pureParts relative) :
    ¬ Strays t root relative := by
  rintro (hroot | hgit)
  · rw [hmeets] at hroot
    exact hparts (List.append_right_eq_self.mp hroot)
  · rw [below, hmeets, List.drop_left] at hgit
    exact (hshaped.parts _ hgit).2 (by decide)

/-! ### Led astray -/

namespace Astray

/-- A note that is a link into the repository's machinery. -/
def tree : FileTree Bytes :=
  .ofEntries
    [(["srv"], .dir), (["srv", ".git"], .dir), (["srv", ".git", "description.md"], .file 0o644 []),
      (["srv", "notes.md"], .link false [".git", "description.md"])]
    (fun _ => none) (by decide) none_ne_noent

theorem resolve_notes :
    resolve tree ["srv"] "notes.md" true = .ok ["srv", ".git", "description.md"] := by decide

theorem not_jailed : ¬ ∀ (t : FileTree Bytes) root relative mustBeFile, Jailed t root relative mustBeFile := by
  intro h
  have hjailed := h tree ["srv"] "notes.md" true
  rw [Jailed, resolve_notes] at hjailed
  exact hjailed.2.1 (by decide)

end Astray

end KeelsonDocker.PlatformPaths
