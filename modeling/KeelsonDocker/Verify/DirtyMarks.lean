import KeelsonDocker.PlatformHandlers
import KeelsonDocker.Verify.QuotedNames

/-!
# Dirty marks

`read_state` reads each line of `git status --porcelain` for a path (`readBack`): it cuts the line at its
first arrow and takes the double quotes off, but undoes no escape. A line is read as it is meant if it is
`Legible`. Where all are, the dirty paths are the changed ones; where some are not, a path is missing or
made up (`marksExactly_iff`), because what is misread has lost an arrow or gained a backslash.
-/

namespace KeelsonDocker.GitStatus

open Effect PlatformRepo

variable {x : Char} {name : String} {l l' rest : List Char} {ch : Change}

/-! ### One line -/

section

variable {blank : Char → Bool}

theorem stripBy_eq_self (hhead : ∀ x ∈ l.head?, blank x = false)
    (hlast : ∀ x ∈ l.getLast?, blank x = false) : stripBy blank (String.ofList l) = String.ofList l := by
  have hdrop {l : List Char} (h : ∀ x ∈ l.head?, blank x = false) : l.dropWhile blank = l := by
    cases l with
    | nil => rfl
    | cons x l => exact List.dropWhile_cons_of_neg (by simp [h x rfl])
  rw [stripBy, String.toList_ofList, hdrop hhead, hdrop, List.reverse_reverse]
  rwa [List.head?_reverse]

theorem isInfix_stripBy (blank : Char → Bool) (s : String) : (stripBy blank s).toList <:+: s.toList := by
  rw [stripBy, String.toList_ofList]
  have hprefix := List.reverse_prefix.mpr
    (List.dropWhile_suffix (l := (s.toList.dropWhile blank).reverse) blank)
  rw [List.reverse_reverse] at hprefix
  exact hprefix.isInfix.trans (List.dropWhile_suffix blank).isInfix

theorem count_stripBy (h : blank x = false) (s : String) :
    (stripBy blank s).toList.count x = s.toList.count x := by
  have hdrop (l : List Char) : (l.dropWhile blank).count x = l.count x := by
    induction l with
    | nil => rfl
    | cons y l ih =>
      rw [List.dropWhile_cons]
      split
      · rename_i hy
        have hne : y ≠ x := by
          rintro rfl
          rw [h] at hy
          cases hy
        rw [ih, List.count_cons_of_ne hne]
      · rfl
  rw [stripBy, String.toList_ofList, List.count_reverse, hdrop, List.count_reverse, hdrop]

end

/-- What follows the columns. -/
def text (c : Change) : List Char := (c.source.map fun s => quote s ++ arrow).getD [] ++ quote c.path

/-- The path that is read from the line of a change. -/
def readBack (c : Change) : String :=
  stripBy (· = '"') (String.ofList ((afterArrow (text c)).getD (text c)))

theorem dirtyPath_line (hpath : ch.path ≠ "") (hsource : ch.source ≠ some "") :
    dirtyPath (String.ofList (line ch)) = some (readBack ch) := by
  have hline : line ch = ch.index.letter :: ch.worktree.letter :: ' ' :: text ch := by
    simp [line, text, arrow]
  have hne := quote_ne_nil hpath
  have hhead : ∀ x ∈ (text ch).head?, isSpace x = false := by
    intro x hx
    cases hs : ch.source with
    | none =>
      simp only [text, hs, Option.map_none, Option.getD_none, List.nil_append] at hx
      exact edge_quote (.inl hx)
    | some s =>
      have hs' : s ≠ "" := fun h => hsource (h ▸ hs)
      simp only [text, hs, Option.map_some, Option.getD_some, List.append_assoc] at hx
      rw [List.head?_append_of_ne_nil _ (quote_ne_nil hs')] at hx
      exact edge_quote (.inl hx)
  have hlast : ∀ x ∈ (text ch).getLast?, isSpace x = false := by
    intro x hx
    rw [text, List.getLast?_append_of_ne_nil _ hne] at hx
    exact edge_quote (.inr hx)
  have hlength : 3 < (String.ofList (line ch)).length := by
    have := List.length_pos_iff.mpr hne
    rw [String.length_ofList, hline, text]
    simp only [List.length_cons, List.length_append]
    omega
  have hdrop : (String.ofList (line ch)).toList.drop 3 = text ch := by
    rw [String.toList_ofList, hline]
    rfl
  have hstrip : strip (String.ofList (text ch)) = String.ofList (text ch) := stripBy_eq_self hhead hlast
  rw [dirtyPath, if_pos hlength, hdrop]
  simp only [hstrip, String.toList_ofList]
  rw [readBack]
  cases afterArrow (text ch) <;> rfl

/-- A change whose line is read as it is meant: nothing in the path is escaped, and the name that stands
first on the line holds no arrow. -/
structure Legible (ch : Change) : Prop where
  verbatim : ∀ x ∈ ch.path.toList, Verbatim x
  arrowless : afterArrow (ch.source.getD ch.path).toList = none

theorem unquote_quote (h : ∀ x ∈ name.toList, Verbatim x) :
    stripBy (· = '"') (String.ofList (quote name)) = name := by
  have hquotes : ∀ x ∈ name.toList, decide (x = '"') = false := fun x hx => decide_eq_false (h x hx).2.2.1
  have hself : stripBy (· = '"') (String.ofList name.toList) = name :=
    (stripBy_eq_self (fun x hx => hquotes x (List.mem_of_head? hx))
      fun x hx => hquotes x (List.mem_of_getLast? hx)).trans String.ofList_toList
  rcases quote_cases name with ⟨heq, -, -⟩ | heq
  · rw [heq, hself]
  · have hdrop {l : List Char} (h : ∀ x ∈ l, decide (x = '"') = false) :
        l.dropWhile (· = '"') = l := by
      cases l with
      | nil => rfl
      | cons x l => exact List.dropWhile_cons_of_neg (by simp [h x List.mem_cons_self])
    rw [heq, escapes_eq_self h, stripBy, String.toList_ofList, List.cons_append,
      List.dropWhile_cons_of_pos (by simp)]
    cases hname : name.toList with
    | nil => exact (String.toList_eq_nil_iff.mp hname).symm
    | cons x l =>
      rw [hname] at hquotes
      rw [List.cons_append, List.dropWhile_cons_of_neg (by simp [hquotes x List.mem_cons_self]),
        ← List.cons_append, List.reverse_append, List.reverse_singleton, List.singleton_append,
        List.dropWhile_cons_of_pos (by simp),
        hdrop fun y hy => hquotes y (List.mem_reverse.mp hy), List.reverse_reverse, ← hname,
        String.ofList_toList]

/-- What is left of the line when everything up to the arrow is cut off. -/
theorem cut_text (h : afterArrow (ch.source.getD ch.path).toList = none) :
    (afterArrow (text ch)).getD (text ch) = quote ch.path := by
  rw [afterArrow_eq_none] at h
  cases hs : ch.source with
  | none =>
    rw [hs] at h
    have hnone : afterArrow (quote ch.path) = none := afterArrow_eq_none.mpr ((arrows_quote _).trans h)
    simp [text, hs, hnone]
  | some s =>
    rw [hs, Option.getD_some] at h
    have htext : text ch = quote s ++ arrow ++ quote ch.path := by simp [text, hs]
    rw [htext, afterArrow_append (sealed_quote h), Option.getD_some]

theorem readBack_of_legible (h : Legible ch) : readBack ch = ch.path := by
  rw [readBack, cut_text h.arrowless, unquote_quote h.verbatim]

theorem arrows_le_of_isInfix (h : l <:+: l') : arrows l ≤ arrows l' := by
  obtain ⟨m, hprefix, hsuffix⟩ := List.infix_iff_prefix_suffix.mp h
  exact (arrows_le_of_isPrefix hprefix).trans (arrows_le_of_isSuffix hsuffix)

theorem arrows_strip (l : List Char) :
    arrows (stripBy (· = '"') (String.ofList l)).toList ≤ arrows l := by
  have := arrows_le_of_isInfix (isInfix_stripBy (· = '"') (String.ofList l))
  rwa [String.toList_ofList] at this

/-- Reading a line loses arrows. -/
theorem arrows_readBack (h : ∀ s ∈ ch.source, afterArrow s.toList = none) :
    arrows (readBack ch).toList ≤ arrows ch.path.toList ∧
      (arrows (readBack ch).toList = arrows ch.path.toList →
        afterArrow (ch.source.getD ch.path).toList = none) := by
  by_cases hnone : afterArrow (ch.source.getD ch.path).toList = none
  · refine ⟨?_, fun _ => hnone⟩
    rw [readBack, cut_text hnone, ← arrows_quote ch.path]
    exact arrows_strip _
  · cases hs : ch.source with
    | some s =>
      rw [hs, Option.getD_some] at hnone
      exact absurd (h s (Option.mem_def.mpr hs)) hnone
    | none =>
      rw [hs] at hnone
      have htext : text ch = quote ch.path := by simp [text, hs]
      obtain ⟨rest, hrest⟩ : ∃ rest, afterArrow (quote ch.path) = some rest := by
        rw [← Option.ne_none_iff_exists', Ne, afterArrow_eq_none, arrows_quote, ← afterArrow_eq_none]
        exact hnone
      have hlt := (arrows_strip rest).trans_lt (arrows_of_afterArrow hrest)
      rw [arrows_quote] at hlt
      rw [readBack, htext, hrest, Option.getD_some]
      exact ⟨hlt.le, fun heq => absurd heq hlt.ne⟩

/-- Reading a line keeps the backslashes of what is escaped. -/
theorem count_readBack (h : afterArrow (ch.source.getD ch.path).toList = none) :
    ch.path.toList.count '\\' ≤ (readBack ch).toList.count '\\' ∧
      ((readBack ch).toList.count '\\' = ch.path.toList.count '\\' →
        ∀ x ∈ ch.path.toList, Verbatim x) := by
  rw [readBack, cut_text h, count_stripBy (by decide), String.toList_ofList]
  exact count_quote ch.path

/-! ### The whole output -/

theorem splitLinesFrom_line {acc : List Char} (h : ∀ x ∈ l, isLineBreak x = false) (rest : List Char) :
    splitLinesFrom acc (l ++ '\n' :: rest) = (acc.reverse ++ l) :: splitLinesFrom [] rest := by
  induction l generalizing acc with
  | nil => simp [splitLinesFrom, isLineBreak]
  | cons x l ih =>
    have hx := h x List.mem_cons_self
    rw [List.cons_append, splitLinesFrom, if_neg (by simp [hx]),
      ih fun y hy => h y (List.mem_cons_of_mem x hy)]
    · simp
    · rintro cs rfl
      cases hx

theorem line_unbroken (ch : Change) (h : x ∈ line ch) : isLineBreak x = false := by
  have hcolumn (column : Column) : 32 ≤ column.letter.toNat ∧ column.letter.toNat < 127 := by
    cases column <;> decide
  have hprintable : 32 ≤ x.toNat ∧ x.toNat < 127 := by
    simp only [line, List.mem_append, List.mem_cons, List.not_mem_nil, or_false] at h
    rcases h with ((rfl | rfl | rfl) | h) | h
    · exact hcolumn _
    · exact hcolumn _
    · decide
    · cases hs : ch.source with
      | none => simp [hs] at h
      | some s =>
        simp only [hs, Option.map_some, Option.getD_some, List.mem_append] at h
        rcases h with h | h
        · exact printable_quote h
        · exact ⟨(verbatim_arrow x h).1, (verbatim_arrow x h).2.1⟩
    · exact printable_quote h
  simp only [isLineBreak, Bool.or_eq_false_iff, Bool.and_eq_false_iff, decide_eq_false_iff_not,
    beq_eq_false_iff_ne]
  omega

/-- The paths read from the output, in its order. -/
theorem dirty_porcelain (u : Uncommitted) :
    (splitLines (porcelain u)).filterMap dirtyPath = u.changes.map readBack := by
  have hlines (changes : List Change) :
      splitLinesFrom [] (changes.flatMap fun c => line c ++ ['\n']) = changes.map line := by
    induction changes with
    | nil => rfl
    | cons c changes ih =>
      rw [List.flatMap_cons, List.append_assoc, List.singleton_append,
        splitLinesFrom_line fun x => line_unbroken c, ih]
      rfl
  rw [splitLines, porcelain, String.toList_ofList, hlines, List.map_map, List.filterMap_map]
  have hmap (changes : List Change) (h : ∀ c ∈ changes, c.path ≠ "" ∧ c.source ≠ some "") :
      changes.filterMap (dirtyPath ∘ String.ofList ∘ line) = changes.map readBack := by
    induction changes with
    | nil => rfl
    | cons c changes ih =>
      have hc := h c List.mem_cons_self
      have hread : (dirtyPath ∘ String.ofList ∘ line) c = some (readBack c) := dirtyPath_line hc.1 hc.2
      rw [List.filterMap_cons_some hread, ih fun c' hc' => h c' (List.mem_cons_of_mem c hc'), List.map_cons]
  exact hmap u.changes u.named

/-- A map of a finite set onto itself that only lowers a measure keeps it, and likewise one that only
raises it. -/
theorem measure_eq_of_image_eq {α : Type} [DecidableEq α] {s : Finset α} {f : α → α} (h : s.image f = s)
    (m : α → Nat) :
    ((∀ a ∈ s, m (f a) ≤ m a) → ∀ a ∈ s, m (f a) = m a) ∧
      ((∀ a ∈ s, m a ≤ m (f a)) → ∀ a ∈ s, m (f a) = m a) := by
  have hinj : Set.InjOn f s := Finset.injOn_of_card_image_eq (by rw [h])
  have hsum : ∑ a ∈ s, m (f a) = ∑ a ∈ s, m a := by
    conv_rhs => rw [← h, Finset.sum_image hinj]
  constructor
  · exact fun hle => (Finset.sum_eq_sum_iff_of_le hle).mp hsum
  · exact fun hle a ha => ((Finset.sum_eq_sum_iff_of_le hle).mp hsum.symm a ha).symm

/-! ### Exact marks -/

/-- `git status` prints these changes. -/
def Prints (git : Git) (u : Uncommitted) : Prop :=
  ∃ stderr, git ["status", "--porcelain", "--untracked-files=all"] = .completed ⟨0, porcelain u, stderr⟩

/-- The path has an uncommitted change. -/
def Uncommitted.Touches (u : Uncommitted) (path : String) : Prop := ∃ c ∈ u.changes, c.path = path

/-- The dirty paths are those with a change, and so are the files marked dirty. -/
structure MarksExactly (u : Uncommitted) (state : RepoState) : Prop where
  paths : ∀ p, p ∈ state.dirtyPaths ↔ u.Touches p
  files : ∀ ctx host t path info, PlatformHandlers.fileInfo ctx host t path state.dirtyPaths = .ok info →
    (info.dirty = true ↔ u.Touches info.relativePath)

variable {git : Git} {u : Uncommitted} {state : RepoState}

theorem mem_dirtyPaths (hprints : Prints git u) (hstate : readState git = .ok state) (p : String) :
    p ∈ state.dirtyPaths ↔ p ∈ u.changes.map readBack := by
  obtain ⟨stderr, hprints⟩ := hprints
  have hrun : runGit git ["status", "--porcelain", "--untracked-files=all"] =
      .ok ⟨0, porcelain u, stderr⟩ := by
    simp [runGit, hprints]
  have hwp : wp (fun _ => True) (readState git) fun state =>
      p ∈ state.dirtyPaths ↔ p ∈ u.changes.map readBack := by
    simp only [readState, wp_bind, wp_ite, wp_pure, hrun, wp_ok, dirty_porcelain,
      List.mem_insertionSort, wp_true, ite_self]
  rwa [hstate] at hwp

theorem marksExactly_of_paths (h : ∀ p, p ∈ state.dirtyPaths ↔ u.Touches p) : MarksExactly u state where
  paths := h
  files ctx host t path info hinfo := by
    obtain ⟨-, -, -, hdirty, -⟩ := PlatformHandlers.fileInfo_eq_ok hinfo
    rw [hdirty]
    exact decide_eq_true_iff.trans (h info.relativePath)

/-- What is read for a path, which has but one line or several alike. -/
theorem exists_reading (u : Uncommitted) : ∃ f : String → String, ∀ c ∈ u.changes, f c.path = readBack c := by
  refine ⟨fun p => ((u.changes.find? (·.path = p)).map readBack).getD p, fun c hc => ?_⟩
  cases hfind : u.changes.find? (·.path = c.path) with
  | none => exact absurd (List.find?_eq_none.mp hfind c hc) (by simp)
  | some c' =>
    have hpath : c'.path = c.path := by simpa using List.find?_some hfind
    have hsource := u.once c' (List.mem_of_find?_eq_some hfind) c hc hpath
    have hread : readBack c' = readBack c := by simp [readBack, text, hpath, hsource]
    simp [hfind, hread]

/-- **The marks are exact when every line is legible, and, as long as no rename comes from a name with an
arrow in it, only then.** -/
theorem marksExactly_iff (hprints : Prints git u) (hstate : readState git = .ok state) :
    (MarksExactly u state ∧ ∀ c ∈ u.changes, ∀ s ∈ c.source, afterArrow s.toList = none) ↔
      ∀ c ∈ u.changes, Legible c := by
  constructor
  · rintro ⟨hmarks, hsources⟩
    obtain ⟨f, hf⟩ := exists_reading u
    have himage : ((u.changes.map Change.path).toFinset).image f = (u.changes.map Change.path).toFinset := by
      ext p
      have hp := (mem_dirtyPaths hprints hstate p).symm.trans (hmarks.paths p)
      simp only [Finset.mem_image, List.mem_toFinset, List.mem_map] at hp ⊢
      constructor
      · rintro ⟨-, ⟨c, hc, rfl⟩, rfl⟩
        exact hp.mp ⟨c, hc, (hf c hc).symm⟩
      · intro h
        obtain ⟨c, hc, hread⟩ := hp.mpr h
        exact ⟨c.path, ⟨c, hc, rfl⟩, (hf c hc).trans hread⟩
    have harrows := (measure_eq_of_image_eq himage fun p => arrows p.toList).1
    have hcounts := (measure_eq_of_image_eq himage fun p => p.toList.count '\\').2
    simp only [List.mem_toFinset, List.mem_map, forall_exists_index, and_imp,
      forall_apply_eq_imp_iff₂] at harrows hcounts
    have hless : ∀ c ∈ u.changes, afterArrow (c.source.getD c.path).toList = none := by
      intro c hc
      apply (arrows_readBack (hsources c hc)).2
      rw [← hf c hc]
      exact harrows (fun c hc => hf c hc ▸ (arrows_readBack (hsources c hc)).1) c hc
    refine fun c hc => ⟨(count_readBack (hless c hc)).2 ?_, hless c hc⟩
    rw [← hf c hc]
    exact hcounts (fun c hc => hf c hc ▸ (count_readBack (hless c hc)).1) c hc
  · intro h
    refine ⟨marksExactly_of_paths fun p => ?_, fun c hc s hs => ?_⟩
    · rw [mem_dirtyPaths hprints hstate, List.mem_map]
      exact exists_congr fun c => and_congr_right fun hc => by rw [readBack_of_legible (h c hc)]
    · have := (h c hc).arrowless
      rwa [Option.mem_def.mp hs] at this

instance : DecidablePred Legible := fun ch =>
  decidable_of_iff ((ch.path.toList.all fun x => Verbatim x) = true ∧
      afterArrow (ch.source.getD ch.path).toList = none) <| by
    simp only [List.all_eq_true, decide_eq_true_eq]
    exact ⟨fun h => ⟨h.1, h.2⟩, fun h => ⟨h.verbatim, h.arrowless⟩⟩

/-! ### A name with a letter that is no ASCII -/

namespace Ringed

/-- A `git` on a branch without an upstream. -/
def branch (u : Uncommitted) : Git := fun args =>
  if args = ["status", "--porcelain", "--untracked-files=all"] then .completed ⟨0, porcelain u, ""⟩
  else .completed ⟨0, "", ""⟩

theorem prints (u : Uncommitted) : Prints (branch u) u := ⟨"", rfl⟩

def stateOf (u : Uncommitted) : RepoState where
  branch := ""
  headSha := ""
  remoteUrl := ""
  ahead := 0
  behind := 0
  dirtyPaths := ((splitLines (porcelain u)).filterMap dirtyPath).insertionSort (· ≤ ·)
  detached := false

theorem readState_branch (u : Uncommitted) : readState (branch u) = .ok (stateOf u) := rfl

def untracked : Uncommitted where
  changes := [{ index := .untracked, worktree := .untracked, path := "platforms/å.yml" }]
  named := by decide
  once := by decide

theorem not_marksExactly :
    ¬ ∀ git u state, Prints git u → readState git = .ok state → MarksExactly u state := by
  intro h
  have hmarks := h _ untracked _ (prints untracked) (readState_branch untracked)
  have hmem := (hmarks.paths "platforms/å.yml").mpr ⟨_, List.mem_cons_self, rfl⟩
  rw [mem_dirtyPaths (prints untracked) (readState_branch untracked)] at hmem
  revert hmem
  decide

/-- A renamed file, and a new one with a blank in its name. -/
def plain : Uncommitted where
  changes := [
    { index := .renamed, worktree := .unmodified, source := some "a.yml", path := "b.yml" },
    { index := .untracked, worktree := .untracked, path := "c d.yml" }]
  named := by decide
  once := by decide

theorem marksExactly_plain : MarksExactly plain (stateOf plain) :=
  ((marksExactly_iff (prints plain) (readState_branch plain)).mpr (by decide)).1

/-- A rename from a name with an arrow can make up for another misreading. -/
example : ([
    { index := .renamed, worktree := .unmodified, source := some "a -> b", path := "c" },
    { index := .untracked, worktree := .untracked, path := "b\" -> c" }] : List Change).map readBack =
    ["b\" -> c", "c"] := by
  decide

end Ringed

end KeelsonDocker.GitStatus
