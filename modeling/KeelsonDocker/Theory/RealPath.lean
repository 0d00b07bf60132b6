import KeelsonDocker.Theory.Walk
import Mathlib.Algebra.Order.BigOperators.Group.Finset

/-!
# Canonical paths without the kernel's help

`os.path.realpath` follows links itself, asking `lstat` about one path after another. It keeps a stack of
parts still to be taken, with a mark under the parts of each link's target, and a table of the links seen:
where a link led once its mark is reached, nothing while it is being followed. A link met while it is
being followed becomes a part of the result.

The answers of `lstat` come from a parameter, so that the tree may change while the links are followed.
What is proved is about a tree that every answer knows (`Answers`): the result is a path whose links, if
any, lead nowhere (`run_clean`); on one tree it is where the kernel gets to, if it gets anywhere
(`realpath_of_walk`).
-/

namespace FileSystem

/-- A part still to be taken, or the link whose target has been taken by then. -/
inductive Item
  | part (name : String)
  | mark (link : Path)
  deriving DecidableEq, Repr

structure Resolving where
  path : Path
  stack : List Item
  seen : List (Path × Option Path) := []
  /-- How often `lstat` has been called. -/
  calls : Nat := 0
  deriving DecidableEq, Repr

/-- The answer to each call of `lstat`. -/
abbrev Look (β : Type) := Nat → Path → String → Except Errno (Node β)

variable {β : Type}

/-- One round of the loop. -/
def Resolving.step (look : Look β) : Resolving → Option Resolving
  | ⟨_, [], _, _⟩ => none
  | ⟨path, .mark link :: stack, seen, calls⟩ => some ⟨path, stack, (link, some path) :: seen, calls⟩
  | ⟨path, .part name :: stack, seen, calls⟩ =>
    match hop path name with
    | some q => some ⟨q, stack, seen, calls⟩
    | none =>
      match look calls path name with
      | .ok (.link absolute target) =>
        match seen.lookup (path ++ [name]) with
        | some (some cached) => some ⟨cached, stack, seen, calls + 1⟩
        -- Met while it is being followed: a loop.
        | some none => some ⟨path ++ [name], stack, seen, calls + 1⟩
        | none => some ⟨base absolute path, target.map .part ++ .mark (path ++ [name]) :: stack,
            (path ++ [name], none) :: seen, calls + 1⟩
      | _ => some ⟨path ++ [name], stack, seen, calls + 1⟩

/-- What one round of the loop does. -/
inductive Round (look : Look β) : Resolving → Resolving → Prop
  | marked : Round look ⟨path, .mark l :: stack, seen, i⟩ ⟨path, stack, (l, some path) :: seen, i⟩
  | dots : hop path name = some q → Round look ⟨path, .part name :: stack, seen, i⟩ ⟨q, stack, seen, i⟩
  | plain : ¬ IsDots name → (∀ a target, look i path name ≠ .ok (.link a target)) →
    Round look ⟨path, .part name :: stack, seen, i⟩ ⟨path ++ [name], stack, seen, i + 1⟩
  | cached : ¬ IsDots name → look i path name = .ok (.link a target) →
    seen.lookup (path ++ [name]) = some (some v) →
    Round look ⟨path, .part name :: stack, seen, i⟩ ⟨v, stack, seen, i + 1⟩
  | loop : ¬ IsDots name → look i path name = .ok (.link a target) →
    seen.lookup (path ++ [name]) = some none →
    Round look ⟨path, .part name :: stack, seen, i⟩ ⟨path ++ [name], stack, seen, i + 1⟩
  | follow : ¬ IsDots name → look i path name = .ok (.link a target) →
    seen.lookup (path ++ [name]) = none →
    Round look ⟨path, .part name :: stack, seen, i⟩
      ⟨base a path, target.map .part ++ .mark (path ++ [name]) :: stack,
        (path ++ [name], none) :: seen, i + 1⟩

def Resolving.run (look : Look β) : Nat → Resolving → Resolving
  | 0, r => r
  | n + 1, r =>
    match r.step look with
    | none => r
    | some r' => run look n r'

def Resolving.start (path : List String) : Resolving := { path := [], stack := path.map .part }

/-- What following a link puts on the stack. -/
def FileTree.weight (t : FileTree β) (p : Path) : Nat :=
  match t.node p with
  | some (.link _ target) => target.length + 1
  | _ => 0

/-- What may still come onto the stack. -/
def FileTree.unseen (t : FileTree β) (seen : List (Path × Option Path)) : Nat :=
  ∑ p ∈ t.places.toFinset.filter fun p => seen.lookup p = none, t.weight p

/-- `os.path.realpath(path, strict=False)` of an absolute path. -/
def FileTree.realpath (t : FileTree β) (path : List String) : Path :=
  (Resolving.run (fun _ => t.lstat) (path.length + t.unseen []) (.start path)).path

variable {t : FileTree β} {look : Look β} {p q k path path' : Path} {name : String}
  {rest comps acc acc' : List String} {stack : List Item} {n m : Nat} {nd : Node β} {a : Bool}
  {target : List String} {r r' : Resolving} {l : Path}

/-! ### Paths whose links lead nowhere -/

/-- No link on the way can be followed to an end. -/
structure Clean (t : FileTree β) (path : Path) : Prop where
  names : ∀ name ∈ path, ¬ IsDots name
  dead : ∀ q name rest a target, path = q ++ name :: rest → Located t q →
    t.lookup q name = .ok (.link a target) → ∀ n k, ¬ Walk t n (base a q) target k

theorem clean_nil : Clean t [] :=
  ⟨by simp, fun q name rest a target h => by simp at h⟩

theorem Clean.of_append (h : Clean t (path ++ rest)) : Clean t path := by
  refine ⟨fun name hn => h.names name (List.mem_append_left _ hn), ?_⟩
  rintro q name rest' a target rfl
  exact h.dead q name (rest' ++ rest) a target (by simp)

theorem Clean.dropLast (h : Clean t path) : Clean t path.dropLast := by
  rcases List.eq_nil_or_concat' path with rfl | ⟨q, name, rfl⟩
  · exact h
  · rw [List.dropLast_concat]
    exact h.of_append

theorem Clean.hop (h : Clean t path) (hq : hop path name = some q) : Clean t q := by
  unfold FileSystem.hop at hq
  split at hq
  · cases hq
    exact h
  · split at hq
    · cases hq
      exact h.dropLast
    · cases hq

theorem Clean.concat (h : Clean t path) (hname : ¬ IsDots name)
    (hdead : ∀ a target, Located t path → t.lookup path name = .ok (.link a target) →
      ∀ n k, ¬ Walk t n (base a path) target k) : Clean t (path ++ [name]) := by
  constructor
  · intro name' hmem
    rcases List.mem_append.mp hmem with hmem | hmem
    · exact h.names _ hmem
    · rw [List.mem_singleton.mp hmem]
      exact hname
  · intro q name' rest a target heq
    rcases List.eq_nil_or_concat' rest with rfl | ⟨rest, last, rfl⟩
    · obtain ⟨rfl, hn⟩ := List.append_inj' heq rfl
      cases hn
      exact hdead a target
    · have heq' : path ++ [name] = (q ++ name' :: rest) ++ [last] := by simpa using heq
      exact h.dead q name' rest a target (List.append_inj' heq' rfl).1

/-- Nothing but the place itself can be reached by a clean path. -/
theorem Clean.straight (hclean : Clean t (p ++ comps)) (hp : Located t p)
    (h : Walk t n p comps k) : n = 0 ∧ k = p ++ comps ∧ Straight t p comps := by
  induction comps generalizing p with
  | nil =>
    cases h
    exact ⟨rfl, by simp, trivial⟩
  | cons name rest ih =>
    have hname : ¬ IsDots name := hclean.names name (by simp)
    cases h with
    | hop hq _ _ => rw [hop_eq_none.mpr hname] at hq; cases hq
    | down hl hnd hw =>
      obtain ⟨rfl, rfl, hs⟩ := ih (by simpa using hclean) (located_concat.mpr ⟨hp, _, hl, hnd⟩) hw
      exact ⟨rfl, by simp, _, hl, hnd, hs⟩
    | link hl hw =>
      obtain ⟨i, j, d, hi, _, _⟩ := hw.split _ _ rfl
      exact absurd hi (hclean.dead p name rest _ _ rfl hp hl i d)

theorem Clean.located (hclean : Clean t path) (h : Walk t n [] path k) : Located t path ∧ k = path := by
  obtain ⟨_, rfl, hs⟩ := hclean.straight (p := []) located_nil h
  exact ⟨hs, rfl⟩

theorem Clean.walk_append (hclean : Clean t path) (h : Walk t n [] (path ++ rest) k) :
    Located t path ∧ Walk t n path rest k := by
  obtain ⟨i, j, d, hi, _, _⟩ := h.split _ _ rfl
  obtain ⟨hl, rfl⟩ := hclean.located hi
  exact ⟨hl, hl.walk_append.mp h⟩

/-- A path without a link on the way is clean. -/
theorem Located.clean (h : Located t path) : Clean t path := by
  induction path using List.reverseRecOn with
  | nil => exact clean_nil
  | append_singleton q name ih =>
    obtain ⟨hq, nd, hl, hnd⟩ := located_concat.mp h
    refine (ih hq).concat (FileTree.isName_of_lookup hl).1 fun a target _ hl' => ?_
    rw [hl] at hl'
    cases hl'
    cases hnd

/-- What the kernel finds below a clean path is found right there. -/
theorem Clean.of_lstat (hclean : Clean t path) (h : t.lstat path name = .ok nd) :
    Located t path ∧ t.lookup path name = .ok nd := by
  unfold FileTree.lstat at h
  cases hw : t.walk path with
  | error e => simp [hw] at h
  | ok d =>
    obtain ⟨n, _, hn⟩ := walk_eq_ok.mp hw
    obtain ⟨hl, rfl⟩ := hclean.located hn
    exact ⟨hl, by simpa [hw] using h⟩

/-! ### The invariant -/

private theorem lookup_cons_ne {seen : List (Path × Option Path)} {o : Option Path} (h : q ≠ p) :
    ((p, o) :: seen).lookup q = seen.lookup q := by
  rw [List.lookup_cons, beq_false_of_ne h]

/-- Every answer knows the tree: what is found there by way of no link, the answer is. -/
def Answers (look : Look β) (t : FileTree β) : Prop :=
  ∀ i path name nd, Located t path → t.lookup path name = .ok nd → look i path name = .ok nd

theorem answers_lstat (t : FileTree β) : Answers (fun _ => t.lstat) t := by
  intro i path name nd hp hl
  show t.lstat path name = .ok nd
  rw [hp.lstat_eq, hl]

/-- A tree knows whatever one knows that is a part of it. -/
theorem answers_of_sub {s : FileTree β} (h : Sub s t) : Answers (fun _ => t.lstat) s :=
  fun i path name nd hp hl => answers_lstat t i path name nd (hp.mono h) (h.lookup path name nd hl)

/-- The parts on the stack. -/
def parts : List Item → List String
  | [] => []
  | .part name :: stack => name :: parts stack
  | .mark _ :: stack => parts stack

theorem parts_append (stack stack' : List Item) : parts (stack ++ stack') = parts stack ++ parts stack' := by
  induction stack with
  | nil => rfl
  | cons item stack ih => cases item <;> simp [parts, ih]

@[simp] theorem parts_map (comps : List String) : parts (comps.map .part) = comps := by
  induction comps with
  | nil => rfl
  | cons name comps ih => simp [parts, ih]

/-- Whatever walk was left to do by `comps` from `path`, as long a one at most is left by `comps'`
from `path'`. -/
def Leaves (t : FileTree β) (path : Path) (comps : List String) (path' : Path) (comps' : List String) : Prop :=
  ∀ rest n k, Located t path → Walk t n path (comps ++ rest) k →
    Located t path' ∧ ∃ m ≤ n, Walk t m path' (comps' ++ rest) k

theorem Leaves.refl : Leaves t path comps path comps :=
  fun _ n _ hp hw => ⟨hp, n, Nat.le_refl n, hw⟩

theorem Leaves.trans {path₂ : Path} {comps₁ comps₂ : List String}
    (h : Leaves t path comps path' comps₁) (h' : Leaves t path' comps₁ path₂ comps₂) :
    Leaves t path comps path₂ comps₂ := by
  intro rest n k hp hw
  obtain ⟨hp', m, hm, hw'⟩ := h rest n k hp hw
  obtain ⟨hp₂, i, hi, hw₂⟩ := h' rest m k hp' hw'
  exact ⟨hp₂, i, hi.trans hm, hw₂⟩

theorem Leaves.append (h : Leaves t path acc path' acc') (comps : List String) :
    Leaves t path (acc ++ comps) path' (acc' ++ comps) := by
  intro rest n k hp hw
  simpa using h (comps ++ rest) n k hp (by simpa using hw)

/-- A link that can be followed at all is followed to its end by the parts above its mark, and by fewer
links than it takes itself. -/
def Leads (t : FileTree β) (path : Path) : List String → List Item → Prop
  | _, [] => True
  | acc, .part name :: stack => Leads t path (acc ++ [name]) stack
  | acc, .mark link :: stack =>
    (∀ n k, Walk t n [] link k → Located t path ∧ ∃ m < n, Walk t m path acc k) ∧ Leads t path acc stack

theorem Leads.leaves (h : Leads t path acc stack) (hleaves : Leaves t path acc path' acc') :
    Leads t path' acc' stack := by
  induction stack generalizing acc acc' with
  | nil => trivial
  | cons item stack ih =>
    cases item with
    | part name =>
      refine ih h fun rest n k hp hw => ?_
      simpa using hleaves (name :: rest) n k hp (by simpa using hw)
    | mark link =>
      obtain ⟨hlink, h⟩ := h
      refine ⟨fun n k hw => ?_, ih h hleaves⟩
      obtain ⟨hp, m, hm, hw⟩ := hlink n k hw
      obtain ⟨hp', m', hm', hw'⟩ := hleaves [] m k hp (by simpa using hw)
      exact ⟨hp', m', by omega, by simpa using hw'⟩

theorem Leads.of_mem (h : Leads t path acc stack) (hmem : .mark l ∈ stack) :
    ∃ rest, ∀ n k, Walk t n [] l k → Located t path ∧ ∃ m < n, Walk t m path (acc ++ rest) k := by
  induction stack generalizing acc with
  | nil => cases hmem
  | cons item stack ih =>
    cases item with
    | part name =>
      obtain ⟨rest, hrest⟩ := ih h (by simpa using hmem)
      exact ⟨name :: rest, by simpa using hrest⟩
    | mark link =>
      rcases List.mem_cons.mp hmem with heq | hmem
      · cases heq
        exact ⟨[], by simpa using h.1⟩
      · exact ih h.2 hmem

theorem leads_map {comps : List String} :
    Leads t path acc (comps.map .part ++ stack) ↔ Leads t path (acc ++ comps) stack := by
  induction comps generalizing acc with
  | nil => simp
  | cons name comps ih => simp [Leads, ih]

structure Sound (t : FileTree β) (r : Resolving) : Prop where
  clean : Clean t r.path
  leads : Leads t r.path [] r.stack
  cached : ∀ l v, r.seen.lookup l = some (some v) →
    Clean t v ∧ ∀ n k, Walk t n [] l k → k = v
  following : ∀ l, r.seen.lookup l = some none → .mark l ∈ r.stack

theorem sound_start (t : FileTree β) (path : List String) : Sound t (.start path) where
  clean := clean_nil
  leads := by
    have : Leads t [] [] (path.map .part ++ []) := leads_map.mpr trivial
    simpa [Resolving.start] using this
  cached l v h := by simp [Resolving.start] at h
  following l h := by simp [Resolving.start] at h

/-! ### One round -/

/-- A link met while it is being followed cannot be followed to an end: doing so would take as many
links again. -/
theorem Sound.loop {seen : List (Path × Option Path)} {i : Nat}
    (h : Sound t ⟨path, .part name :: stack, seen, i⟩)
    (hseen : seen.lookup (path ++ [name]) = some none) (hp : Located t path)
    (hl : t.lookup path name = .ok (.link a target)) : ∀ n k, ¬ Walk t n (base a path) target k := by
  intro n k hw
  have hmem : Item.mark (path ++ [name]) ∈ stack := by simpa using h.following _ hseen
  have hleads : Leads t path [name] stack := by simpa [Leads] using h.leads
  obtain ⟨rest, hrest⟩ := hleads.of_mem hmem
  have hwhole : Walk t (n + 1) [] (path ++ [name]) k :=
    hp.walk_append.mpr (.link hl (by simpa using hw))
  obtain ⟨_, m, hm, hagain⟩ := hrest _ _ hwhole
  obtain ⟨i, j, d, hi, _, hij⟩ := hagain.split [name] rest rfl
  have := (hi.unique (hp.walk_append.mp hwhole)).1
  omega

theorem round_of_step (h : r.step look = some r') : Round look r r' := by
  obtain ⟨path, stack, seen, i⟩ := r
  rcases stack with _ | ⟨name | link, stack⟩
  · cases h
  · simp only [Resolving.step] at h
    split at h
    · rename_i q hq
      cases h
      exact .dots hq
    · rename_i hq
      have hname := hop_eq_none.mp hq
      split at h
      · rename_i a target hlook
        split at h <;> rename_i hseen <;> cases h
        · exact .cached hname hlook hseen
        · exact .loop hname hlook hseen
        · exact .follow hname hlook hseen
      · rename_i hlook
        cases h
        exact .plain hname hlook
  · cases h
    exact .marked

/-- A part is taken without leaving others. -/
private theorem Sound.pop {seen : List (Path × Option Path)} {i j : Nat}
    (h : Sound t ⟨path, .part name :: stack, seen, i⟩) (hclean : Clean t path')
    (hleaves : Leaves t path [name] path' []) :
    Sound t ⟨path', stack, seen, j⟩ ∧
      Leaves t path (parts (.part name :: stack)) path' (parts stack) where
  left :=
    { clean := hclean
      leads := by
        have hleads : Leads t path [name] stack := by simpa [Leads] using h.leads
        exact hleads.leaves hleaves
      cached := h.cached
      following := fun l hl => by simpa using h.following l hl }
  right := hleaves.append (parts stack)

private theorem leaves_of_hop (hq : hop path name = some q) : Leaves t path [name] q [] := by
  intro rest n k hp hw
  cases hw with
  | hop hq' _ hw =>
    rw [hq] at hq'
    cases hq'
    exact ⟨located_hop hq hp, n, Nat.le_refl n, hw⟩
  | down hl _ _ => rw [FileTree.hop_of_lookup hl] at hq; cases hq
  | link hl _ => rw [FileTree.hop_of_lookup hl] at hq; cases hq

/-- What the tree knows to be no link is left as such. -/
private theorem leaves_of_plain {i : Nat} (hlook : Answers look t) (hname : ¬ IsDots name)
    (hplain : ∀ a target, look i path name ≠ .ok (.link a target)) :
    Leaves t path [name] (path ++ [name]) [] := by
  intro rest n k hp hw
  cases hw with
  | hop hq _ _ => rw [hop_eq_none.mpr hname] at hq; cases hq
  | down hl hnd hw => exact ⟨located_concat.mpr ⟨hp, _, hl, hnd⟩, n, Nat.le_refl n, hw⟩
  | link hl _ => exact absurd (hlook i _ _ _ hp hl) (hplain _ _)

/-- What is answered as a link is that link, if the tree knows of it at all. -/
private theorem leaves_of_link {i : Nat} (hlook : Answers look t) (hname : ¬ IsDots name)
    (hlink : look i path name = .ok (.link a target))
    (h : t.lookup path name = .ok (.link a target) → ∀ rest n k, Located t path →
      Walk t n (base a path) (target ++ rest) k →
      Located t path' ∧ ∃ m ≤ n + 1, Walk t m path' (acc' ++ rest) k) :
    Leaves t path [name] path' acc' := by
  intro rest n k hp hw
  cases hw with
  | hop hq _ _ => rw [hop_eq_none.mpr hname] at hq; cases hq
  | down hl hnd _ =>
    rw [hlook i _ _ _ hp hl] at hlink
    cases hlink
    cases hnd
  | link hl hw =>
    rw [hlook i _ _ _ hp hl] at hlink
    cases hlink
    exact h hl rest _ k hp hw

theorem Sound.round (hlook : Answers look t) (h : Sound t r) (hr : Round look r r') :
    Sound t r' ∧ Leaves t r.path (parts r.stack) r'.path (parts r'.stack) := by
  cases hr with
  | @marked path l stack seen i =>
    refine ⟨⟨h.clean, h.leads.2, fun l' v hl' => ?_, fun l' hl' => ?_⟩, .refl⟩
    · by_cases heq : l' = l
      · subst heq
        simp only [List.lookup_cons_self, Option.some.injEq] at hl'
        subst hl'
        refine ⟨h.clean, fun n k hw => ?_⟩
        obtain ⟨_, m, _, hw'⟩ := h.leads.1 n k hw
        cases hw'
        rfl
      · rw [lookup_cons_ne heq] at hl'
        exact h.cached l' v hl'
    · by_cases heq : l' = l
      · subst heq
        simp at hl'
      · rw [lookup_cons_ne heq] at hl'
        simpa [heq] using h.following l' hl'
  | dots hq => exact h.pop (h.clean.hop hq) (leaves_of_hop hq)
  | @plain name i path stack seen hname hplain =>
    refine h.pop (h.clean.concat hname fun a target hp hl => ?_) (leaves_of_plain hlook hname hplain)
    exact absurd (hlook i _ _ _ hp hl) (hplain a target)
  | @cached name i path a target seen v stack hname hlink hseen =>
    obtain ⟨hclean, hv⟩ := h.cached _ _ hseen
    refine h.pop hclean (leaves_of_link hlook hname hlink fun hl rest n k hp hw => ?_)
    obtain ⟨m, j, d, hm, hj, rfl⟩ := hw.split target rest rfl
    have hd := hv (m + 1) d (hp.walk_append.mpr (.link hl (by simpa using hm)))
    subst hd
    exact ⟨hm.located hp.base, j, by omega, by simpa using hj⟩
  | @loop name i path a target stack seen hname hlink hseen =>
    refine h.pop (h.clean.concat hname fun a' target' hp hl => ?_)
      (leaves_of_link hlook hname hlink fun hl rest n k hp hw => ?_)
    · exact h.loop hseen hp hl
    · obtain ⟨m, j, d, hm, _, _⟩ := hw.split target rest rfl
      exact absurd hm (h.loop hseen hp hl m d)
  | @follow name i path a target stack seen hname hlink hseen =>
    have hleads : Leads t path [name] stack := by simpa [Leads] using h.leads
    have hleaves : Leaves t path [name] (base a path) target :=
      leaves_of_link hlook hname hlink fun _ rest n k hp hw =>
        ⟨hp.base, n, Nat.le_succ n, hw⟩
    refine ⟨⟨?_, ?_, fun l v hl => ?_, fun l hl => ?_⟩, ?_⟩
    · cases a
      · exact h.clean
      · exact clean_nil
    · refine leads_map.mpr ⟨fun n k hw => ?_, by simpa using hleads.leaves hleaves⟩
      obtain ⟨hp, hw⟩ := h.clean.walk_append hw
      cases hw with
      | hop hq _ _ => rw [hop_eq_none.mpr hname] at hq; cases hq
      | down hl hnd _ =>
        rw [hlook i _ _ _ hp hl] at hlink
        cases hlink
        cases hnd
      | link hl hw =>
        rw [hlook i _ _ _ hp hl] at hlink
        cases hlink
        exact ⟨hp.base, _, Nat.lt_succ_self _, by simpa using hw⟩
    · by_cases heq : l = path ++ [name]
      · subst heq
        simp at hl
      · rw [lookup_cons_ne heq] at hl
        exact h.cached l v hl
    · by_cases heq : l = path ++ [name]
      · subst heq
        simp
      · rw [lookup_cons_ne heq] at hl
        simpa [heq] using h.following l hl
    · simpa [parts_append, parts] using hleaves.append (parts stack)

/-! ### The whole run -/

theorem Sound.run (hlook : Answers look t) (h : Sound t r) :
    Sound t (r.run look n) ∧
      Leaves t r.path (parts r.stack) (r.run look n).path (parts (r.run look n).stack) := by
  induction n generalizing r with
  | zero => exact ⟨h, .refl⟩
  | succ n ih =>
    rw [Resolving.run]
    cases hs : r.step look with
    | none => exact ⟨h, .refl⟩
    | some r' =>
      obtain ⟨h', hleaves⟩ := h.round hlook (round_of_step hs)
      obtain ⟨hrun, hleaves'⟩ := ih h'
      exact ⟨hrun, hleaves.trans hleaves'⟩

/-- **What the loop arrives at**: no link on the way leads anywhere, in any tree that all answers know. -/
theorem run_clean (hlook : Answers look t) (path : List String) :
    Clean t (Resolving.run look n (.start path)).path :=
  ((sound_start t path).run hlook).1.clean

/-! ### How long it takes -/

private theorem weight_of_link (h : t.node p = some (.link a target)) :
    t.weight p = target.length + 1 := by
  rw [FileTree.weight, h]

/-- Following a link takes it out of what may still come. -/
private theorem unseen_cons {seen : List (Path × Option Path)} (h : seen.lookup p = none)
    (hp : t.node p = some (.link a target)) :
    t.unseen ((p, none) :: seen) + (target.length + 1) = t.unseen seen := by
  have hmem : p ∈ t.places.toFinset.filter fun q => seen.lookup q = none := by
    simp [h, t.listed p (by simp [hp])]
  have hfilter : (t.places.toFinset.filter fun q => ((p, none) :: seen).lookup q = none) =
      (t.places.toFinset.filter fun q => seen.lookup q = none).erase p := by
    ext q
    by_cases hq : q = p
    · subst hq
      simp
    · simp [lookup_cons_ne hq, hq]
  rw [FileTree.unseen, hfilter, ← weight_of_link hp, Finset.sum_erase_add _ _ hmem, FileTree.unseen]

private theorem unseen_marked {seen : List (Path × Option Path)} {o : Option Path} :
    t.unseen ((p, o) :: seen) ≤ t.unseen seen := by
  refine Finset.sum_le_sum_of_subset fun q hq => ?_
  simp only [Finset.mem_filter, List.mem_toFinset] at hq ⊢
  refine ⟨hq.1, ?_⟩
  by_cases heq : q = p
  · subst heq
    simp at hq
  · simpa [lookup_cons_ne heq] using hq.2

/-- A round brings the end closer, as long as the links answered are those of the tree `t`, whichever tree
is asked. -/
theorem Round.shorter_of_links (hr : Round look r r')
    (hlinks : ∀ i name a target, look i r.path name = .ok (.link a target) →
      t.node (r.path ++ [name]) = some (.link a target)) :
    r'.stack.length + t.unseen r'.seen < r.stack.length + t.unseen r.seen := by
  cases hr with
  | @marked path l stack seen i =>
    have : t.unseen ((l, some path) :: seen) ≤ t.unseen seen := unseen_marked
    simp only [List.length_cons]
    omega
  | dots | plain | cached | loop => simp
  | @follow name i path a target stack seen hname hlink hseen =>
    have := unseen_cons hseen (hlinks i name a target hlink)
    simp only [List.length_append, List.length_map, List.length_cons]
    omega

/-- A round on one tree brings the end closer. -/
theorem Round.shorter (hr : Round (fun _ => t.lstat) r r') (h : Sound t r) :
    r'.stack.length + t.unseen r'.seen < r.stack.length + t.unseen r.seen :=
  hr.shorter_of_links fun _ _ _ _ hlink => FileTree.node_of_lookup (h.clean.of_lstat hlink).2

theorem Sound.run_done (h : Sound t r) (hn : r.stack.length + t.unseen r.seen ≤ n) :
    (r.run (fun _ => t.lstat) n).stack = [] := by
  induction n generalizing r with
  | zero =>
    rw [Resolving.run]
    exact List.length_eq_zero_iff.mp (by omega)
  | succ n ih =>
    rw [Resolving.run]
    cases hs : r.step fun _ => t.lstat with
    | none =>
      obtain ⟨path, stack, seen, i⟩ := r
      rcases stack with _ | ⟨name | link, stack⟩
      · rfl
      · simp only [Resolving.step] at hs
        repeat' split at hs
        all_goals cases hs
      · cases hs
    | some r' =>
      have hr := round_of_step hs
      have := hr.shorter h
      exact ih (h.round (answers_lstat t) hr).1 (by omega)

theorem realpath_clean (t : FileTree β) (path : List String) : Clean t (t.realpath path) :=
  run_clean (answers_lstat t) path

/-- **Where the kernel gets to is where following the links by hand does.** -/
theorem realpath_of_walk (h : Walk t n [] comps k) : t.realpath comps = k := by
  have hstart := sound_start t comps
  have hdone := hstart.run_done (n := comps.length + t.unseen []) (by simp [Resolving.start])
  obtain ⟨_, hleaves⟩ := hstart.run (n := comps.length + t.unseen []) (answers_lstat t)
  obtain ⟨_, m, _, hw⟩ := hleaves [] n k located_nil (by simpa [Resolving.start] using h)
  rw [hdone] at hw
  cases hw
  rfl

theorem Located.realpath_eq (h : Located t p) : t.realpath p = p := realpath_of_walk h.walk

/-- The kernel finds nothing through a canonical path but what stands at the very place. -/
theorem walk_realpath (h : t.walk (t.realpath comps) = .ok k) :
    k = t.realpath comps ∧ Located t (t.realpath comps) := by
  obtain ⟨n, _, hw⟩ := walk_eq_ok.mp h
  obtain ⟨hl, hk⟩ := (realpath_clean t comps).located hw
  exact ⟨hk, hl⟩

/-! ### Where nothing is to be followed -/

private theorem run_straight {names : List String} {seen : List (Path × Option Path)} {i : Nat}
    (hp : Located t p) (hs : Straight t p names) :
    ∃ j, Resolving.run (fun _ => t.lstat) (names.length + n) ⟨p, names.map .part ++ stack, seen, i⟩ =
      Resolving.run (fun _ => t.lstat) n ⟨p ++ names, stack, seen, j⟩ := by
  induction names generalizing p i with
  | nil => exact ⟨i, by simp⟩
  | cons name names ih =>
    obtain ⟨nd, hl, hnd, hs⟩ := hs
    obtain ⟨j, hj⟩ := ih (i := i + 1) (located_concat.mpr ⟨hp, nd, hl, hnd⟩) hs
    refine ⟨j, ?_⟩
    have hlstat : t.lstat p name = .ok nd := by rw [hp.lstat_eq, hl]
    have hstep : Resolving.step (fun _ => t.lstat) ⟨p, .part name :: (names.map .part ++ stack), seen, i⟩ =
        some ⟨p ++ [name], names.map .part ++ stack, seen, i + 1⟩ := by
      simp only [Resolving.step, FileTree.hop_of_lookup hl, hlstat]
      cases nd with
      | link => cases hnd
      | dir => rfl
      | file => rfl
    have hlen : (name :: names).length + n = names.length + n + 1 := by
      simp only [List.length_cons]
      omega
    rw [hlen, List.map_cons, List.cons_append, Resolving.run, hstep]
    simpa using hj

/-- An entry that is no link, or is missing, is its own canonical path. -/
theorem realpath_of_not_link (hp : Located t p) (hname : ¬ IsDots name)
    (hlink : ∀ a target, t.lookup p name ≠ .ok (.link a target)) :
    t.realpath (p ++ [name]) = p ++ [name] := by
  obtain ⟨j, hj⟩ := run_straight (n := t.unseen [] + 1) (i := 0)
    (p := []) located_nil hp
  have hlen : (p ++ [name]).length + t.unseen [] = p.length + (t.unseen [] + 1) := by
    simp only [List.length_append, List.length_singleton]
    omega
  have hstart : Resolving.start (p ++ [name]) = ⟨[], p.map .part ++ [.part name], [], 0⟩ := by
    simp [Resolving.start]
  have hstep : Resolving.step (fun _ => t.lstat) ⟨[] ++ p, [.part name], [], j⟩ =
      some ⟨p ++ [name], [], [], j + 1⟩ := by
    simp only [List.nil_append, Resolving.step, hop_eq_none.mpr hname, hp.lstat_eq]
  have hdone : Resolving.run (fun _ => t.lstat) (t.unseen []) ⟨p ++ [name], [], [], j + 1⟩ =
      ⟨p ++ [name], [], [], j + 1⟩ := by
    cases t.unseen [] <;> rfl
  rw [FileTree.realpath, hlen, hstart, hj, Resolving.run, hstep]
  exact congrArg Resolving.path hdone

theorem stack_of_step_eq_none (h : r.step look = none) : r.stack = [] := by
  obtain ⟨path, stack, seen, i⟩ := r
  rcases stack with _ | ⟨name | link, stack⟩
  · rfl
  · simp only [Resolving.step] at h
    repeat' split at h
    all_goals cases h
  · cases h

/-- A path being resolved that has turned out to be its own place so far. -/
def Onward (path : Path) (r : Resolving) : Prop :=
  ∃ names i, r = ⟨r.path, names.map .part, [], i⟩ ∧ path = r.path ++ names

theorem onward_start (path : Path) : Onward path (.start path) := ⟨path, 0, rfl, rfl⟩

/-- Where nothing is to be followed, the next part is taken as it stands. -/
theorem Onward.step (h : Onward path r) (hnames : ∀ name ∈ path, ¬ IsDots name)
    (hparent : Located t path.dropLast)
    (hlink : ∀ q name a target, path = q ++ [name] → t.lookup q name ≠ .ok (.link a target))
    (hstep : (r.step fun _ => t.lstat) = some r') : Onward path r' := by
  obtain ⟨names, i, hr, hpath⟩ := h
  generalize r.path = q at hr hpath
  subst hr
  cases names with
  | nil => cases hstep
  | cons name names =>
    have hname : ¬ IsDots name := hnames name (by simp [hpath])
    have hplain : ∀ a target, t.lstat q name ≠ .ok (.link a target) := by
      intro a target hl
      rcases List.eq_nil_or_concat' names with rfl | ⟨names, last, rfl⟩
      · rw [hpath, List.dropLast_concat] at hparent
        rw [hparent.lstat_eq] at hl
        exact hlink q name a target hpath hl
      · have hdrop : path.dropLast = (q ++ [name]) ++ names := by
          rw [hpath, ← List.cons_append, ← List.append_assoc, List.dropLast_concat]
          simp
        rw [hdrop] at hparent
        obtain ⟨hq, nd, hl', hnd⟩ := located_concat.mp (located_append.mp hparent).1
        rw [hq.lstat_eq, hl'] at hl
        cases hl
        cases hnd
    have hnext : r' = ⟨q ++ [name], names.map .part, [], i + 1⟩ := by
      simp only [Resolving.step, List.map_cons, hop_eq_none.mpr hname] at hstep
      exact (Option.some.inj hstep).symm
    subst hnext
    exact ⟨names, i + 1, rfl, by simpa using hpath⟩

theorem Onward.done (h : Onward path r) (hdone : r.stack = []) : r.path = path := by
  obtain ⟨names, i, hr, hpath⟩ := h
  rw [hr] at hdone
  simp only [List.map_eq_nil_iff] at hdone
  rw [hpath, hdone, List.append_nil]

/-! ### Replacing what leads nowhere -/

/-- No walk passes a place where nothing stands, nor a link that leads nowhere. -/
theorem Walk.of_dead {s : FileTree β} (hw : Walk t n q comps k) (hq : Located t q) (hclean : Clean t p)
    (hdead : ∀ nd, t.node p = some nd → nd.isLink = true)
    (hnode : ∀ q nd, q ≠ p → t.node q = some nd → s.node q = some nd)
    (hrefused : s.refused = t.refused) : Walk s n q comps k := by
  have henter {q : Path} {name : String} (he : t.enter q name = .ok ()) : s.enter q name = .ok () := by
    obtain ⟨hd, hr⟩ := FileTree.enter_eq_ok.mp he
    refine FileTree.enter_eq_ok.mpr ⟨hnode q _ ?_ hd, by rw [hrefused, hr]⟩
    rintro rfl
    cases hdead _ hd
  have hlookup {q : Path} {name : String} {nd : Node β} (hne : q ++ [name] ≠ p)
      (hl : t.lookup q name = .ok nd) : s.lookup q name = .ok nd := by
    obtain ⟨hr, hn⟩ := FileTree.lookup_eq_ok.mp hl
    exact FileTree.lookup_eq_ok.mpr ⟨by rw [hrefused, hr], hnode _ _ hne hn⟩
  induction hw with
  | done => exact .done
  | hop hh he _ ih => exact .hop hh (henter he) (ih (located_hop hh hq))
  | @down q name nd n rest k hl hnd _ ih =>
    have hne : q ++ [name] ≠ p := by
      rintro rfl
      rw [hdead nd (FileTree.node_of_lookup hl)] at hnd
      cases hnd
    exact .down (hlookup hne hl) hnd (ih (located_concat.mpr ⟨hq, nd, hl, hnd⟩))
  | @link q name a target n rest k hl hw ih =>
    have hne : q ++ [name] ≠ p := by
      rintro rfl
      obtain ⟨i, j, d, hi, _, _⟩ := hw.split target rest rfl
      exact hclean.dead q name [] a target rfl hq hl i d hi
    exact .link (hlookup hne hl) (ih hq.base)

/-! ### Trees with the same links -/

variable {s : FileTree β}

theorem step_of_done (h : r.stack = []) : r.step look = none := by
  obtain ⟨path, stack, seen, calls⟩ := r
  cases h
  rfl

theorem run_of_step_eq_none (h : r.step look = none) : r.run look n = r := by
  cases n with
  | zero => rfl
  | succ n => rw [Resolving.run, h]

theorem run_add : r.run look (n + m) = (r.run look n).run look m := by
  induction n generalizing r with
  | zero => simp [Resolving.run]
  | succ n ih =>
    rw [Nat.add_right_comm, Resolving.run, Resolving.run]
    cases hstep : r.step look with
    | none => exact (run_of_step_eq_none hstep).symm
    | some r' => exact ih

/-- More rounds than it takes change nothing. -/
theorem realpath_eq_run (h : comps.length + t.unseen [] ≤ n) :
    (Resolving.run (fun _ => t.lstat) n (.start comps)).path = t.realpath comps := by
  obtain ⟨extra, rfl⟩ := Nat.exists_eq_add_of_le h
  have hdone := (sound_start t comps).run_done (n := comps.length + t.unseen [])
    (by simp [Resolving.start])
  rw [run_add, run_of_step_eq_none (step_of_done hdone)]
  rfl

/-- The same links at the same places, and one gets to them alike. -/
structure SameLinks (s t : FileTree β) : Prop where
  links : ∀ p a target, s.node p = some (.link a target) ↔ t.node p = some (.link a target)
  reached : ∀ p a target, s.node p = some (.link a target) → ∀ q, q <+: p → s.refused q = t.refused q

namespace SameLinks

theorem symm (h : SameLinks s t) : SameLinks t s where
  links p a target := (h.links p a target).symm
  reached p a target hp q hq := (h.reached p a target ((h.links p a target).mpr hp) q hq).symm

theorem lstat_eq_link (h : SameLinks s t) (hs : Clean s path)
    (hl : s.lstat path name = .ok (.link a target)) : t.lstat path name = .ok (.link a target) := by
  obtain ⟨hp, hl⟩ := hs.of_lstat hl
  obtain ⟨hr, hn⟩ := FileTree.lookup_eq_ok.mp hl
  have hreached := h.reached _ _ _ hn
  have hn' := (h.links _ _ _).mp hn
  have hp' : Located t path := by
    refine located_of_node (by rw [hn']; exact nofun) fun q hq hne => ?_
    rw [← hreached q (hq.trans (List.prefix_append _ _))]
    exact hp.not_refused hq hne
  rw [hp'.lstat_eq]
  exact FileTree.lookup_eq_ok.mpr ⟨by rw [← hreached _ (List.prefix_refl _), hr], hn'⟩

/-- A round asks for nothing but links. -/
theorem step_eq (h : SameLinks s t) (hs : Clean s r.path) (ht : Clean t r.path) :
    r.step (fun _ => s.lstat) = r.step fun _ => t.lstat := by
  obtain ⟨path, stack, seen, calls⟩ := r
  rcases stack with _ | ⟨name | l, stack⟩
  · rfl
  · simp only [Resolving.step]
    cases hop path name with
    | some q => rfl
    | none =>
      dsimp only
      split
      · rename_i a target hl
        rw [h.lstat_eq_link hs hl]
      · rename_i hplain
        split
        · rename_i a target hl
          exact absurd (h.symm.lstat_eq_link ht hl) (hplain a target)
        · rfl
  · rfl

theorem run_eq (h : SameLinks s t) (hs : Sound s r) (ht : Sound t r) :
    r.run (fun _ => s.lstat) n = r.run (fun _ => t.lstat) n := by
  induction n generalizing r with
  | zero => rfl
  | succ n ih =>
    rw [Resolving.run, Resolving.run, h.step_eq hs.clean ht.clean]
    cases hstep : r.step fun _ => t.lstat with
    | none => rfl
    | some r' =>
      have hs' := (hs.round (answers_lstat s) (round_of_step ((h.step_eq hs.clean ht.clean).trans hstep))).1
      exact ih hs' (ht.round (answers_lstat t) (round_of_step hstep)).1

/-- **Where the links lead depends on the links alone.** -/
theorem realpath_eq (h : SameLinks s t) (path : List String) : s.realpath path = t.realpath path := by
  rw [← realpath_eq_run (Nat.le_add_right _ (t.unseen [])),
    ← realpath_eq_run (t := t) (n := path.length + s.unseen [] + t.unseen []) (by omega),
    h.run_eq (sound_start s path) (sound_start t path)]

end SameLinks
end FileSystem
