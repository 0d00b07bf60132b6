import KeelsonDocker.Theory.FileSystem
import Mathlib.Data.List.Induction

/-!
# Walks

`Walk t n p comps k`: from `p` the path `comps` leads to `k` by way of `n` links. The kernel's own
search is this relation cut off at its limit (`walkUpTo_eq_ok`); a walk is determined by where it starts,
and one over several parts is one over the first parts and one over the others.
-/

namespace FileSystem

inductive Walk (t : FileTree β) : Nat → Path → List String → Path → Prop
  | done : Walk t 0 p [] p
  | hop : hop p name = some q → t.enter p name = .ok () → Walk t n q rest k →
    Walk t n p (name :: rest) k
  | down : t.lookup p name = .ok nd → nd.isLink = false → Walk t n (p ++ [name]) rest k →
    Walk t n p (name :: rest) k
  | link : t.lookup p name = .ok (.link a target) → Walk t n (base a p) (target ++ rest) k →
    Walk t (n + 1) p (name :: rest) k

variable {β : Type} {s t : FileTree β} {p q k k' : Path} {name : String}
  {rest comps comps' names : List String} {n m : Nat} {nd : Node β} {a : Bool} {target : List String}

/-! ### The kernel's search -/

private theorem walkWith_sound {follow : Path → List String → Except Errno Path}
    (hfollow : ∀ p comps k, follow p comps = .ok k → ∃ n, n + 1 ≤ m ∧ Walk t n p comps k) :
    ∀ comps p k, t.walkWith follow p comps = .ok k → ∃ n ≤ m, Walk t n p comps k := by
  intro comps
  induction comps with
  | nil =>
    intro p k h
    cases h
    exact ⟨0, Nat.zero_le _, .done⟩
  | cons name rest ih =>
    intro p k h
    simp only [FileTree.walkWith] at h
    split at h
    · rename_i q hq
      split at h
      · cases h
      · rename_i he
        obtain ⟨n, hn, hw⟩ := ih _ _ h
        exact ⟨n, hn, .hop hq he hw⟩
    · cases hl : t.lookup p name with
      | error e => simp [hl] at h
      | ok nd =>
        cases nd with
        | link a target =>
          simp only [hl] at h
          obtain ⟨n, hn, hw⟩ := hfollow _ _ _ h
          exact ⟨n + 1, hn, .link hl hw⟩
        | dir =>
          simp only [hl] at h
          obtain ⟨n, hn, hw⟩ := ih _ _ h
          exact ⟨n, hn, .down hl rfl hw⟩
        | file =>
          simp only [hl] at h
          obtain ⟨n, hn, hw⟩ := ih _ _ h
          exact ⟨n, hn, .down hl rfl hw⟩

private theorem walkUpTo_sound :
    ∀ m p comps k, t.walkUpTo m p comps = .ok k → ∃ n ≤ m, Walk t n p comps k := by
  intro m
  induction m with
  | zero => exact fun p comps k => walkWith_sound (fun _ _ _ h => by cases h) comps p k
  | succ m ih =>
    intro p comps k
    refine walkWith_sound (fun p comps k h => ?_) comps p k
    obtain ⟨n, hn, hw⟩ := ih p comps k h
    exact ⟨n, by omega, hw⟩

theorem Walk.walkUpTo (h : Walk t n p comps k) (hm : n ≤ m) : t.walkUpTo m p comps = .ok k := by
  induction h generalizing m with
  | done => cases m <;> rfl
  | hop hq he _ ih =>
    have := ih hm
    cases m <;> simpa [FileTree.walkUpTo, FileTree.walkWith, hq, he] using this
  | @down p name nd n rest k hl hnd _ ih =>
    have := ih hm
    have hq := FileTree.hop_of_lookup hl
    cases nd with
    | link => cases hnd
    | dir => cases m <;> simpa [FileTree.walkUpTo, FileTree.walkWith, hq, hl] using this
    | file => cases m <;> simpa [FileTree.walkUpTo, FileTree.walkWith, hq, hl] using this
  | link hl _ ih =>
    have hq := FileTree.hop_of_lookup hl
    cases m with
    | zero => omega
    | succ m => simpa [FileTree.walkUpTo, FileTree.walkWith, hq, hl] using ih (Nat.le_of_succ_le_succ hm)

theorem walkUpTo_eq_ok : t.walkUpTo m p comps = .ok k ↔ ∃ n ≤ m, Walk t n p comps k :=
  ⟨walkUpTo_sound m p comps k, fun ⟨_, hn, hw⟩ => hw.walkUpTo hn⟩

theorem walk_eq_ok :
    t.walk comps = .ok k ↔ ∃ n ≤ FileTree.maxSymlinks, Walk t n [] comps k := walkUpTo_eq_ok

/-! ### Taking a walk apart -/

namespace Walk

/-- Where a walk leads, and by how many links, depends on where it starts alone. -/
theorem unique (h : Walk t n p comps k) (h' : Walk t m p comps k') : n = m ∧ k = k' := by
  induction h generalizing m k' with
  | done =>
    cases h'
    exact ⟨rfl, rfl⟩
  | hop hq _ _ ih =>
    cases h' with
    | hop hq' _ hw =>
      rw [hq] at hq'
      cases hq'
      exact ih hw
    | down hl _ _ => rw [FileTree.hop_of_lookup hl] at hq; cases hq
    | link hl _ => rw [FileTree.hop_of_lookup hl] at hq; cases hq
  | down hl hnd _ ih =>
    cases h' with
    | hop hq _ _ => rw [FileTree.hop_of_lookup hl] at hq; cases hq
    | down _ _ hw => exact ih hw
    | link hl' _ =>
      rw [hl] at hl'
      cases hl'
      cases hnd
  | link hl _ ih =>
    cases h' with
    | hop hq _ _ => rw [FileTree.hop_of_lookup hl] at hq; cases hq
    | down hl' hnd _ =>
      rw [hl] at hl'
      cases hl'
      cases hnd
    | link hl' hw =>
      rw [hl] at hl'
      cases hl'
      obtain ⟨rfl, rfl⟩ := ih hw
      exact ⟨rfl, rfl⟩

theorem append (h : Walk t n p comps k) (h' : Walk t m k comps' k') :
    Walk t (n + m) p (comps ++ comps') k' := by
  induction h with
  | done => simpa using h'
  | hop hq he _ ih => exact .hop hq he (ih h')
  | down hl hnd _ ih => exact .down hl hnd (ih h')
  | link hl _ ih =>
    rw [Nat.add_right_comm]
    exact .link hl (by simpa using ih h')

theorem split (h : Walk t n p comps k) :
    ∀ first last, comps = first ++ last →
      ∃ i j d, Walk t i p first d ∧ Walk t j d last k ∧ n = i + j := by
  induction h with
  | done =>
    intro first last heq
    obtain ⟨rfl, rfl⟩ := List.nil_eq_append_iff.mp heq
    exact ⟨0, 0, _, .done, .done, rfl⟩
  | @hop p name q n rest k hq he hw ih =>
    intro first last heq
    rcases List.cons_eq_append_iff.mp heq with ⟨rfl, rfl⟩ | ⟨first, rfl, rfl⟩
    · exact ⟨0, n, p, .done, .hop hq he hw, by omega⟩
    · obtain ⟨i, j, d, hi, hj, hn⟩ := ih first last rfl
      exact ⟨i, j, d, .hop hq he hi, hj, hn⟩
  | @down p name nd n rest k hl hnd hw ih =>
    intro first last heq
    rcases List.cons_eq_append_iff.mp heq with ⟨rfl, rfl⟩ | ⟨first, rfl, rfl⟩
    · exact ⟨0, n, p, .done, .down hl hnd hw, by omega⟩
    · obtain ⟨i, j, d, hi, hj, hn⟩ := ih first last rfl
      exact ⟨i, j, d, .down hl hnd hi, hj, hn⟩
  | @link p name a target n rest k hl hw ih =>
    intro first last heq
    rcases List.cons_eq_append_iff.mp heq with ⟨rfl, rfl⟩ | ⟨first, rfl, rfl⟩
    · exact ⟨0, n + 1, p, .done, .link hl hw, by omega⟩
    · obtain ⟨i, j, d, hi, hj, hn⟩ := ih (target ++ first) last (by simp)
      exact ⟨i + 1, j, d, .link hl hi, hj, by omega⟩

end Walk

/-! ### Places without a link on the way -/

/-- From `p` the names lead down without a link. -/
def Straight (t : FileTree β) : Path → List String → Prop
  | _, [] => True
  | p, name :: rest =>
    ∃ nd, t.lookup p name = .ok nd ∧ nd.isLink = false ∧ Straight t (p ++ [name]) rest

/-- The place is its own path: the kernel gets to it without following a link. -/
def Located (t : FileTree β) (p : Path) : Prop := Straight t [] p

theorem straight_append :
    Straight t p (comps ++ comps') ↔ Straight t p comps ∧ Straight t (p ++ comps) comps' := by
  induction comps generalizing p with
  | nil => simp [Straight]
  | cons name rest ih =>
    simp only [List.cons_append, Straight, ih, List.append_assoc, List.nil_append]
    constructor
    · rintro ⟨nd, hl, hnd, h, h'⟩
      exact ⟨⟨nd, hl, hnd, h⟩, h'⟩
    · rintro ⟨⟨nd, hl, hnd, h⟩, h'⟩
      exact ⟨nd, hl, hnd, h, h'⟩

theorem located_nil : Located t [] := trivial

theorem located_append : Located t (p ++ comps) ↔ Located t p ∧ Straight t p comps := by
  simpa [Located] using straight_append (p := [])

theorem located_concat :
    Located t (p ++ [name]) ↔ Located t p ∧ ∃ nd, t.lookup p name = .ok nd ∧ nd.isLink = false := by
  simp [located_append, Straight]

theorem Located.dropLast (h : Located t p) : Located t p.dropLast := by
  rcases List.eq_nil_or_concat' p with rfl | ⟨q, name, rfl⟩
  · exact h
  · rw [List.dropLast_concat]
    exact (located_concat.mp h).1

theorem Straight.walk_append (h : Straight t p names) :
    Walk t n p (names ++ rest) k ↔ Walk t n (p ++ names) rest k := by
  induction names generalizing p with
  | nil => simp
  | cons name names ih =>
    obtain ⟨nd, hl, hnd, hs⟩ := h
    have heq : p ++ name :: names = p ++ [name] ++ names := by simp
    rw [heq, ← ih hs]
    constructor
    · intro hw
      cases hw with
      | hop hq _ _ => rw [FileTree.hop_of_lookup hl] at hq; cases hq
      | down _ _ hw => exact hw
      | link hl' _ =>
        rw [hl] at hl'
        cases hl'
        cases hnd
    · exact fun hw => .down hl hnd hw

theorem Located.walk_append (h : Located t p) : Walk t n [] (p ++ rest) k ↔ Walk t n p rest k := by
  simpa using Straight.walk_append h

theorem Located.walk (h : Located t p) : Walk t 0 [] p p := by
  have := (h.walk_append (n := 0) (k := p)).mpr .done
  simpa using this

theorem Located.base (h : Located t p) : Located t (base a p) := by
  cases a
  · exact h
  · exact located_nil

theorem located_hop (hq : hop p name = some q) (h : Located t p) : Located t q := by
  unfold hop at hq
  split at hq
  · cases hq
    exact h
  · split at hq
    · cases hq
      exact h.dropLast
    · cases hq

theorem Walk.located (h : Walk t n p comps k) (hp : Located t p) : Located t k := by
  induction h with
  | done => exact hp
  | hop hq _ _ ih => exact ih (located_hop hq hp)
  | down hl hnd _ ih => exact ih (located_concat.mpr ⟨hp, _, hl, hnd⟩)
  | link _ _ ih => exact ih hp.base

theorem Located.walk_eq (h : Located t p) : t.walk p = .ok p :=
  walk_eq_ok.mpr ⟨0, Nat.zero_le _, h.walk⟩

theorem Located.lstat_eq (h : Located t p) : t.lstat p name = t.lookup p name := by
  rw [FileTree.lstat, h.walk_eq]

/-- The names on the way to a place are names. -/
theorem Located.isName (h : Located t p) : ∀ name ∈ p, IsName name := by
  induction p using List.reverseRecOn with
  | nil => simp
  | append_singleton p name ih =>
    obtain ⟨hp, nd, hl, _⟩ := located_concat.mp h
    intro name' hmem
    rcases List.mem_append.mp hmem with hmem | hmem
    · exact ih hp name' hmem
    · rw [List.mem_singleton.mp hmem]
      exact FileTree.isName_of_lookup hl

/-- Something stands at a place that the kernel gets to. -/
theorem Located.node (h : Located t p) : ∃ nd, t.node p = some nd ∧ nd.isLink = false := by
  rcases List.eq_nil_or_concat' p with rfl | ⟨q, name, rfl⟩
  · exact ⟨.dir, t.root, rfl⟩
  · obtain ⟨_, nd, hl, hnd⟩ := located_concat.mp h
    exact ⟨nd, FileTree.node_of_lookup hl, hnd⟩

/-- The way to a place where something stands is straight. -/
theorem located_of_node (hnode : t.node (p ++ [name]) ≠ none)
    (hrefused : ∀ q, q <+: p → q ≠ [] → t.refused q = none) : Located t p := by
  induction p using List.reverseRecOn generalizing name with
  | nil => exact located_nil
  | append_singleton p last ih =>
    have hdir := t.parent _ _ hnode
    have hp : Located t p := by
      refine ih (by rw [hdir]; exact nofun) fun q hq hne => ?_
      exact hrefused q (hq.trans (List.prefix_append _ _)) hne
    refine located_concat.mpr ⟨hp, .dir, ?_, rfl⟩
    exact FileTree.lookup_eq_ok.mpr ⟨hrefused _ (List.prefix_refl _) (by simp), hdir⟩

theorem Located.not_refused (h : Located t p) (hq : q <+: p) (hne : q ≠ []) : t.refused q = none := by
  induction p using List.reverseRecOn with
  | nil => exact absurd (List.prefix_nil.mp hq) hne
  | append_singleton p last ih =>
    obtain ⟨hp, nd, hl, _⟩ := located_concat.mp h
    rcases List.prefix_concat_iff.mp hq with rfl | hq
    · exact (FileTree.lookup_eq_ok.mp hl).1
    · exact ih hp hq

/-- A place stays located while nothing changes on the way to it. -/
theorem Located.congr {t' : FileTree β} (h : Located t p) (hrefused : t'.refused = t.refused)
    (hnode : ∀ q, q <+: p → t'.node q = t.node q) : Located t' p := by
  induction p using List.reverseRecOn with
  | nil => exact located_nil
  | append_singleton p name ih =>
    obtain ⟨hp, nd, hl, hnd⟩ := located_concat.mp h
    obtain ⟨hr, hn⟩ := FileTree.lookup_eq_ok.mp hl
    refine located_concat.mpr ⟨ih hp fun q hq => hnode q (hq.trans (List.prefix_append _ _)), nd, ?_, hnd⟩
    exact FileTree.lookup_eq_ok.mpr ⟨by rw [hrefused, hr], by rw [hnode _ (List.prefix_refl _), hn]⟩

/-- Directories alone are on the way to something. -/
theorem FileTree.node_of_prefix (hp : t.node p ≠ none) (hq : q <+: p) (hne : q ≠ p) :
    t.node q = some .dir := by
  induction p using List.reverseRecOn with
  | nil => exact absurd (List.prefix_nil.mp hq) hne
  | append_singleton p name ih =>
    have hdir := t.parent p name hp
    have hq : q <+: p := (List.prefix_concat_iff.mp hq).resolve_left hne
    by_cases heq : q = p
    · exact heq ▸ hdir
    · exact ih (by rw [hdir]; exact nofun) hq heq

/-- A place stays located when something that is no directory is put elsewhere. -/
theorem Located.of_sets {t' : FileTree β} (h : Located t p) (hne : p ≠ q)
    (hsets : FileTree.Sets t t' q (some nd)) (hnd : nd ≠ .dir) : Located t' p := by
  obtain ⟨nd', hn, _⟩ := h.node
  have hp : t'.node p ≠ none := by
    rw [hsets.node_of_ne hne, hn]
    exact nofun
  refine h.congr hsets.refused fun r hr => hsets.node_of_ne ?_
  rintro rfl
  have hdir := t'.node_of_prefix hp hr hne.symm
  rw [hsets.node_self] at hdir
  cases hdir
  exact hnd rfl

/-! ### Trees of which one knows less -/

/-- Whatever is found in `s` is found in `t`. -/
structure Sub (s t : FileTree β) : Prop where
  enter : ∀ p name, s.enter p name = .ok () → t.enter p name = .ok ()
  lookup : ∀ p name nd, s.lookup p name = .ok nd → t.lookup p name = .ok nd

theorem Sub.refl (t : FileTree β) : Sub t t := ⟨fun _ _ => id, fun _ _ _ => id⟩

theorem Sub.trans {u : FileTree β} (h : Sub s t) (h' : Sub t u) : Sub s u :=
  ⟨fun p name he => h'.enter p name (h.enter p name he),
    fun p name nd hl => h'.lookup p name nd (h.lookup p name nd hl)⟩

theorem Walk.mono (h : Sub s t) (hw : Walk s n p comps k) : Walk t n p comps k := by
  induction hw with
  | done => exact .done
  | hop hq he _ ih => exact .hop hq (h.enter _ _ he) ih
  | down hl hnd _ ih => exact .down (h.lookup _ _ _ hl) hnd ih
  | link hl _ ih => exact .link (h.lookup _ _ _ hl) ih

theorem Straight.mono (h : Sub s t) (hs : Straight s p names) : Straight t p names := by
  induction names generalizing p with
  | nil => trivial
  | cons name names ih =>
    obtain ⟨nd, hl, hnd, hs⟩ := hs
    exact ⟨nd, h.lookup _ _ _ hl, hnd, ih hs⟩

theorem Located.mono (h : Sub s t) (hp : Located s p) : Located t p := Straight.mono h hp

theorem sub_of_node (hnode : ∀ p nd, s.node p = some nd → t.node p = some nd)
    (hrefused : t.refused = s.refused) : Sub s t where
  enter p name he := by
    obtain ⟨hd, hr⟩ := FileTree.enter_eq_ok.mp he
    exact FileTree.enter_eq_ok.mpr ⟨hnode p _ hd, by rw [hrefused, hr]⟩
  lookup p name nd hl := by
    obtain ⟨hr, hn⟩ := FileTree.lookup_eq_ok.mp hl
    exact FileTree.lookup_eq_ok.mpr ⟨by rw [hrefused, hr], hnode _ _ hn⟩

/-- A new entry hides nothing. -/
theorem FileTree.Sets.sub {o : Option (Node β)} (hfresh : s.node p = none) (h : FileTree.Sets s t p o) :
    Sub s t := by
  refine sub_of_node (fun q nd hn => ?_) h.refused
  rw [h.node_of_ne, hn]
  rintro rfl
  rw [hfresh] at hn
  cases hn

/-- The tree without its files. -/
def FileTree.skeleton (t : FileTree β) : FileTree β where
  node p :=
    match t.node p with
    | some (.file ..) => none
    | o => o
  refused := t.refused
  unreadable := t.unreadable
  places := t.places
  root := by simp [t.root]
  parent p name h := by
    have hp := t.parent p name (by rintro hnone; simp [hnone] at h)
    simp [hp]
  names p name h := t.names p name (by rintro hnone; simp [hnone] at h)
  listed p h := t.listed p (by rintro hnone; simp [hnone] at h)
  refusal := t.refusal

theorem skeleton_node :
    t.skeleton.node p = some nd ↔ t.node p = some nd ∧ nd.isFile = false := by
  cases hn : t.node p with
  | none => simp [FileTree.skeleton, hn]
  | some nd' =>
    cases nd' with
    | file mode content =>
      simp only [FileTree.skeleton, hn, Option.some.injEq, reduceCtorEq, false_iff, not_and]
      rintro rfl
      simp [Node.isFile]
    | dir =>
      simp only [FileTree.skeleton, hn, Option.some.injEq]
      constructor
      · rintro rfl
        exact ⟨rfl, rfl⟩
      · exact And.left
    | link absolute target =>
      simp only [FileTree.skeleton, hn, Option.some.injEq]
      constructor
      · rintro rfl
        exact ⟨rfl, rfl⟩
      · exact And.left

theorem sub_skeleton (t : FileTree β) : Sub t.skeleton t :=
  sub_of_node (fun _ _ h => (skeleton_node.mp h).1) rfl

/-- What is no file in `t` is the same in `s`. -/
theorem skeleton_sub (hnode : ∀ p nd, t.node p = some nd → nd.isFile = false → s.node p = some nd)
    (hrefused : t.refused = s.refused) : Sub t.skeleton s.skeleton := by
  refine sub_of_node (fun p nd h => ?_) hrefused.symm
  obtain ⟨hn, hfile⟩ := skeleton_node.mp h
  exact skeleton_node.mpr ⟨hnode p nd hn hfile, hfile⟩

/-- A file put somewhere leaves the links there are, but for one it replaced. -/
theorem FileTree.Sets.skeleton_sub (h : FileTree.Sets s t p (some nd)) (hfile : nd.isFile = true) :
    Sub t.skeleton s.skeleton := by
  refine FileSystem.skeleton_sub (fun q nd' hn hfile' => ?_) h.refused
  rw [← h.node_of_ne, hn]
  rintro rfl
  rw [h.node_self] at hn
  cases hn
  rw [hfile] at hfile'
  cases hfile'

theorem FileTree.Sets.skeleton_sup {o : Option (Node β)} (hfresh : s.node p = none)
    (h : FileTree.Sets s t p o) : Sub s.skeleton t.skeleton := by
  refine FileSystem.skeleton_sub (fun q nd' hn _ => ?_) h.refused.symm
  rw [h.node_of_ne, hn]
  rintro rfl
  rw [hfresh] at hn
  cases hn

theorem FileTree.Same.skeleton_sub (h : FileTree.Same s t) : Sub t.skeleton s.skeleton :=
  FileSystem.skeleton_sub (fun q nd hn _ => by rw [← h.node, hn]) h.refused

theorem skeleton_lookup (h : t.lookup p name = .ok nd) (hfile : nd.isFile = false) :
    t.skeleton.lookup p name = .ok nd := by
  obtain ⟨hr, hn⟩ := FileTree.lookup_eq_ok.mp h
  exact FileTree.lookup_eq_ok.mpr ⟨hr, skeleton_node.mpr ⟨hn, hfile⟩⟩

/-- A walk to a directory passes no file. -/
theorem Walk.skeleton (h : Walk t n p comps k) (hk : t.node k = some .dir) :
    Walk t.skeleton n p comps k := by
  induction h with
  | done => exact .done
  | hop hq he _ ih =>
    obtain ⟨hd, hr⟩ := FileTree.enter_eq_ok.mp he
    exact .hop hq (FileTree.enter_eq_ok.mpr ⟨skeleton_node.mpr ⟨hd, rfl⟩, hr⟩) (ih hk)
  | @down p name nd n rest k hl hnd hw ih =>
    have hfile : nd.isFile = false := by
      cases nd with
      | dir => rfl
      | link => rfl
      | file mode content =>
        have hn := FileTree.node_of_lookup hl
        cases hw with
        | done => rw [hk] at hn; cases hn
        | hop _ he _ => rw [(FileTree.enter_eq_ok.mp he).1] at hn; cases hn
        | down hl' _ _ => rw [(FileTree.enter_eq_ok.mp (FileTree.enter_of_lookup hl')).1] at hn; cases hn
        | link hl' _ => rw [(FileTree.enter_eq_ok.mp (FileTree.enter_of_lookup hl')).1] at hn; cases hn
    exact .down (skeleton_lookup hl hfile) hnd (ih hk)
  | link hl _ ih => exact .link (skeleton_lookup hl rfl) (ih hk)

end FileSystem
