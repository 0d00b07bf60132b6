import KeelsonDocker.Theory.Sorted
import KeelsonDocker.Verify.MergedLogs

/-!
# Where the lines of a merge come from

`merge_log_lines` sorts by the time carried along each stream, so that a stream keeps its own order
exactly if its carried times never go back (`keepsOrder_iff`). Nothing is lost, and a line without a time
stays right behind the line it continues (`merged_lines`).
-/

namespace KeelsonDocker

open Sorted

/-- What `merge_log_lines` returns, each line with its key: the time it carries, the stream it came from
and its position there. -/
def mergedLines (stdout stderr : List LogLine) : List (MergeKey × LogLine) :=
  if stderr.isEmpty then keyLines 0 (0, 0) 0 stdout
  else if stdout.isEmpty then keyLines 1 (0, 0) 0 stderr
  else
    (keyLines 0 (0, 0) 0 stdout ++ keyLines 1 (0, 0) 0 stderr).insertionSort fun x y => keyedLe x y

/-- The times carried along a stream: a line's own, else that of the line before. -/
def carriedTimes : Int × Int → List LogLine → List (Int × Int)
  | _, [] => []
  | carried, line :: lines =>
    let carried' := (line.time.map fun t => (t.seconds, t.nanos)).getD carried
    carried' :: carriedTimes carried' lines

/-- The carried times, from the epoch on, never go back. -/
def Advancing (lines : List LogLine) : Prop :=
  (carriedTimes (0, 0) lines).Pairwise fun c c' => toLex c ≤ toLex c'

instance : DecidablePred Advancing := fun lines =>
  inferInstanceAs (Decidable ((carriedTimes (0, 0) lines).Pairwise _))

variable {stdout stderr lines : List LogLine} {stream position : Nat} {carried : Int × Int}
  {x y z : MergeKey × LogLine}

theorem map_snd_mergedLines : (mergedLines stdout stderr).map Prod.snd = mergeLogLines stdout stderr := by
  unfold mergedLines mergeLogLines
  split
  · exact map_snd_keyLines
  · split
    · exact map_snd_keyLines
    · rfl

/-! ### Keys of one stream -/

theorem map_carried_keyLines (stream position : Nat) :
    (keyLines stream carried position lines).map (·.1.carried) = carriedTimes carried lines := by
  induction lines generalizing carried position with
  | nil => rfl
  | cons line lines ih => rw [keyLines, List.map_cons, ih (position + 1), carriedTimes]

/-- Within a stream the carried times decide. -/
theorem keyedLe_iff_of_position_lt (hs : x.1.stream = y.1.stream) (hp : x.1.position < y.1.position) :
    keyedLe x y = true ↔ toLex x.1.carried ≤ toLex y.1.carried := by
  have hpos : toLex (x.1.stream, x.1.position) ≤ toLex (y.1.stream, y.1.position) :=
    Prod.Lex.toLex_le_toLex.mpr (.inr ⟨hs, hp.le⟩)
  rw [keyedLe, MergeKey.le_iff, MergeKey.toTuple, MergeKey.toTuple, Prod.Lex.toLex_le_toLex,
    and_iff_left hpos]
  exact le_iff_lt_or_eq.symm

theorem pairwise_keyLines_iff (stream position : Nat) :
    (keyLines stream (0, 0) position lines).Pairwise (keyedLe · ·) ↔ Advancing lines := by
  have hiff : ∀ x ∈ keyLines stream (0, 0) position lines,
      ∀ y ∈ keyLines stream (0, 0) position lines, x.1.position < y.1.position →
        (keyedLe x y = true ↔ toLex x.1.carried ≤ toLex y.1.carried) := by
    intro x hx y hy hp
    refine keyedLe_iff_of_position_lt ?_ hp
    rw [stream_of_mem_keyLines hx, stream_of_mem_keyLines hy]
  rw [Advancing, ← map_carried_keyLines stream position, List.pairwise_map]
  constructor
  · intro h
    refine (h.and pairwise_position_keyLines).imp_of_mem fun hx hy hxy => ?_
    exact (hiff _ hx _ hy hxy.2).mp hxy.1
  · intro h
    refine (h.and pairwise_position_keyLines).imp_of_mem fun hx hy hxy => ?_
    exact (hiff _ hx _ hy hxy.2).mpr hxy.1

/-- The key of a line without a time follows that of the line before. -/
theorem key_of_untimed {before after : List (MergeKey × LogLine)}
    (h : keyLines stream carried position lines = before ++ x :: y :: after) (hy : y.2.time = none) :
    y.1 = { x.1 with position := x.1.position + 1 } := by
  induction before generalizing lines carried position with
  | nil =>
    cases lines with
    | nil => cases h
    | cons line lines =>
      cases lines with
      | nil => cases h
      | cons line' lines =>
        cases h
        simp only at hy
        simp [hy]
  | cons first before ih =>
    cases lines with
    | nil => cases h
    | cons line lines =>
      rw [keyLines, List.cons_append, List.cons.injEq] at h
      exact ih h.2

/-- No key lies between two of one stream that differ by one in the position. -/
theorem key_between (hxz : keyedLe x z = true) (hzy : keyedLe z y = true)
    (hy : y.1 = { x.1 with position := x.1.position + 1 }) : z.1 = x.1 ∨ z.1 = y.1 := by
  obtain ⟨⟨xc, xs, xp⟩, xl⟩ := x
  obtain ⟨⟨zc, zs, zp⟩, zl⟩ := z
  obtain ⟨ky, yl⟩ := y
  simp only at hy
  subst hy
  simp only [keyedLe, MergeKey.le_iff, MergeKey.toTuple, Prod.Lex.toLex_le_toLex] at hxz hzy
  have hc : xc = zc := by
    refine toLex.injective (le_antisymm ?_ ?_)
    · exact hxz.elim le_of_lt fun h => h.1.le
    · exact hzy.elim le_of_lt fun h => h.1.le
  subst hc
  simp only [lt_self_iff_false, false_or, true_and] at hxz hzy
  have hpos : xs = zs ∧ (zp = xp ∨ zp = xp + 1) := by omega
  obtain ⟨rfl, rfl | rfl⟩ := hpos
  · exact .inl rfl
  · exact .inr rfl

/-! ### The merged lines -/

theorem perm_mergedLines :
    (mergedLines stdout stderr).Perm (keyLines 0 (0, 0) 0 stdout ++ keyLines 1 (0, 0) 0 stderr) := by
  unfold mergedLines
  split
  · rename_i h
    rw [List.isEmpty_iff.mp h]
    simp [keyLines]
  · split
    · rename_i h
      rw [List.isEmpty_iff.mp h]
      simp [keyLines]
    · exact List.perm_insertionSort _ _

theorem antisymm_mergedLines : Antisymm (fun x y => keyedLe x y = true) (mergedLines stdout stderr) := by
  intro x hx y hy hxy hyx
  have hkey : x.1 = y.1 :=
    MergeKey.toTuple_injective (le_antisymm (MergeKey.le_iff.mp hxy) (MergeKey.le_iff.mp hyx))
  exact eq_of_keys_eq x (perm_mergedLines.mem_iff.mp hx) y (perm_mergedLines.mem_iff.mp hy) hkey

theorem filter_keyLines (h : stream = n) :
    (keyLines stream carried position lines).filter (·.1.stream == n) =
      keyLines stream carried position lines := by
  rw [List.filter_eq_self]
  intro x hx
  rw [stream_of_mem_keyLines hx, h, beq_self_eq_true]

theorem filter_keyLines_of_ne (h : stream ≠ n) :
    (keyLines stream carried position lines).filter (·.1.stream == n) = [] := by
  rw [List.filter_eq_nil_iff]
  intro x hx
  rw [stream_of_mem_keyLines hx]
  simpa using h

theorem pairwise_mergedLines (hout : stdout ≠ []) (herr : stderr ≠ []) :
    (mergedLines stdout stderr).Pairwise fun x y => keyedLe x y = true := by
  unfold mergedLines
  rw [if_neg (by simpa using herr), if_neg (by simpa using hout)]
  exact List.pairwise_insertionSort _ _

theorem nodup_mergedLines : (mergedLines stdout stderr).Nodup := by
  rw [perm_mergedLines.nodup_iff, List.nodup_append]
  have hnodup {stream : Nat} {lines : List LogLine} : (keyLines stream (0, 0) 0 lines).Nodup :=
    pairwise_position_keyLines.imp fun {x y} h heq => absurd (congrArg (·.1.position) heq) h.ne
  refine ⟨hnodup, hnodup, fun x hx y hy heq => ?_⟩
  have hs : (0 : Nat) = 1 := by
    rw [← stream_of_mem_keyLines hx, heq, stream_of_mem_keyLines hy]
  cases hs

/-! ### A stream's own order -/

/-- The lines of the merge that came from either stream are that stream, line by line. -/
def KeepsOrder (stdout stderr : List LogLine) : Prop :=
  (mergedLines stdout stderr).filter (·.1.stream == 0) = keyLines 0 (0, 0) 0 stdout ∧
    (mergedLines stdout stderr).filter (·.1.stream == 1) = keyLines 1 (0, 0) 0 stderr

theorem filter_both (n : Nat) :
    (keyLines 0 (0, 0) 0 stdout ++ keyLines 1 (0, 0) 0 stderr).filter (·.1.stream == n) =
      (keyLines 0 (0, 0) 0 stdout).filter (·.1.stream == n) ++
        (keyLines 1 (0, 0) 0 stderr).filter (·.1.stream == n) :=
  List.filter_append ..

theorem filter_stdout :
    (keyLines 0 (0, 0) 0 stdout ++ keyLines 1 (0, 0) 0 stderr).filter (·.1.stream == 0) =
      keyLines 0 (0, 0) 0 stdout := by
  rw [filter_both, filter_keyLines rfl, filter_keyLines_of_ne Nat.one_ne_zero, List.append_nil]

theorem filter_stderr :
    (keyLines 0 (0, 0) 0 stdout ++ keyLines 1 (0, 0) 0 stderr).filter (·.1.stream == 1) =
      keyLines 1 (0, 0) 0 stderr := by
  rw [filter_both, filter_keyLines_of_ne Nat.zero_ne_one, filter_keyLines rfl, List.nil_append]

/-- With one stream empty there is nothing to sort. -/
theorem keepsOrder_of_empty (h : stdout = [] ∨ stderr = []) : KeepsOrder stdout stderr := by
  have hmerged : mergedLines stdout stderr =
      keyLines 0 (0, 0) 0 stdout ++ keyLines 1 (0, 0) 0 stderr := by
    unfold mergedLines
    rcases h with rfl | rfl
    · cases stderr with
      | nil => rfl
      | cons line lines => rfl
    · exact (List.append_nil _).symm
  rw [KeepsOrder, hmerged]
  exact ⟨filter_stdout, filter_stderr⟩

/-- **A stream keeps its own order** exactly if the other one is empty, or if the times carried along
either never go back. -/
theorem keepsOrder_iff (stdout stderr : List LogLine) : KeepsOrder stdout stderr ↔
    stdout = [] ∨ stderr = [] ∨ Advancing stdout ∧ Advancing stderr := by
  by_cases hout : stdout = []
  · exact iff_of_true (keepsOrder_of_empty (.inl hout)) (.inl hout)
  by_cases herr : stderr = []
  · exact iff_of_true (keepsOrder_of_empty (.inr herr)) (.inr (.inl herr))
  have hsorted := pairwise_mergedLines hout herr
  constructor
  · intro ⟨hkeep, hkeep'⟩
    refine .inr (.inr ⟨?_, ?_⟩)
    · rw [← pairwise_keyLines_iff 0 0, ← hkeep]
      exact hsorted.sublist List.filter_sublist
    · rw [← pairwise_keyLines_iff 1 0, ← hkeep']
      exact hsorted.sublist List.filter_sublist
  · intro h
    obtain ⟨hadv, hadv'⟩ := (h.resolve_left hout).resolve_left herr
    constructor
    · refine (filter_eq perm_mergedLines hsorted ?_ antisymm_mergedLines).trans filter_stdout
      rw [filter_stdout]
      exact (pairwise_keyLines_iff 0 0).mpr hadv
    · refine (filter_eq perm_mergedLines hsorted ?_ antisymm_mergedLines).trans filter_stderr
      rw [filter_stderr]
      exact (pairwise_keyLines_iff 1 0).mpr hadv'

/-- After a clock was set back, a stream's two lines change places. -/
theorem not_keepsOrder : ¬ ∀ stdout stderr, KeepsOrder stdout stderr := by
  intro h
  have hkeep := h [⟨some ⟨2, 0⟩, .stdout, "before"⟩, ⟨some ⟨1, 0⟩, .stdout, "after"⟩]
    [⟨some ⟨0, 0⟩, .stderr, "other"⟩]
  exact absurd hkeep (by unfold KeepsOrder; decide)

/-! ### What the merge returns -/

/-- `x` may stand before `y`: it carries no later time, and on equal times stdout comes first. -/
def InOrder (x y : MergeKey × LogLine) : Prop :=
  toLex x.1.carried ≤ toLex y.1.carried ∧ (x.1.carried = y.1.carried → x.1.stream ≤ y.1.stream)

instance : DecidableRel InOrder := fun x y =>
  inferInstanceAs (Decidable (toLex x.1.carried ≤ toLex y.1.carried ∧
    (x.1.carried = y.1.carried → x.1.stream ≤ y.1.stream)))

theorem inOrder_of_keyedLe (h : keyedLe x y = true) : InOrder x y := by
  rw [keyedLe, MergeKey.le_iff, MergeKey.toTuple, MergeKey.toTuple, Prod.Lex.toLex_le_toLex] at h
  rcases h with h | ⟨heq, h⟩
  · exact ⟨h.le, fun heq => absurd (congrArg toLex heq) h.ne⟩
  · refine ⟨heq.le, fun _ => ?_⟩
    exact (Prod.Lex.toLex_le_toLex.mp h).elim le_of_lt fun h => h.1.le

theorem pairwise_inOrder (hout : Advancing stdout) (herr : Advancing stderr) :
    (mergedLines stdout stderr).Pairwise InOrder := by
  apply List.Pairwise.imp inOrder_of_keyedLe
  by_cases he : stderr = []
  · rw [mergedLines, if_pos (by simpa using he)]
    exact (pairwise_keyLines_iff 0 0).mpr hout
  by_cases ho : stdout = []
  · rw [mergedLines, if_neg (by simpa using he), if_pos (by simpa using ho)]
    exact (pairwise_keyLines_iff 1 0).mpr herr
  exact pairwise_mergedLines ho he

/-- The time a `Timestamp` stands for, as the merge compares it. -/
def Timestamp.pair (t : Timestamp) : Int × Int := (t.seconds, t.nanos)

/-- The times of those lines that have one do not go back. -/
def Ascending (lines : List LogLine) : Prop :=
  (lines.filterMap (·.time)).Pairwise fun t t' => toLex t.pair ≤ toLex t'.pair

instance : DecidablePred Ascending := fun lines =>
  inferInstanceAs (Decidable ((lines.filterMap (·.time)).Pairwise
    fun t t' => toLex t.pair ≤ toLex t'.pair))

theorem pairwise_carriedTimes (h : Ascending lines)
    (hle : ∀ t ∈ lines.filterMap (·.time), toLex carried ≤ toLex t.pair) :
    (carriedTimes carried lines).Pairwise (fun c c' => toLex c ≤ toLex c') ∧
      ∀ c ∈ carriedTimes carried lines, toLex carried ≤ toLex c := by
  induction lines generalizing carried with
  | nil => exact ⟨.nil, nofun⟩
  | cons line lines ih =>
    have hrest : ∀ carried' : Int × Int,
        (line.time.map fun t => (t.seconds, t.nanos)).getD carried = carried' →
        toLex carried ≤ toLex carried' → Ascending lines →
        (∀ t ∈ lines.filterMap (·.time), toLex carried' ≤ toLex t.pair) →
        (carriedTimes carried (line :: lines)).Pairwise (fun c c' => toLex c ≤ toLex c') ∧
          ∀ c ∈ carriedTimes carried (line :: lines), toLex carried ≤ toLex c := by
      intro carried' hcarried hle' hasc htimes
      obtain ⟨hpair, hall⟩ := ih hasc htimes
      rw [carriedTimes, hcarried]
      refine ⟨.cons hall hpair, fun c hc => ?_⟩
      rcases List.mem_cons.mp hc with rfl | hc
      · exact hle'
      · exact hle'.trans (hall c hc)
    unfold Ascending at h
    cases ht : line.time with
    | none =>
      rw [List.filterMap_cons_none ht] at h hle
      exact hrest carried (by rw [ht]; rfl) le_rfl h hle
    | some t =>
      rw [List.filterMap_cons_some ht] at h hle
      obtain ⟨hfirst, hasc⟩ := List.pairwise_cons.mp h
      exact hrest t.pair (by rw [ht]; rfl) (hle t List.mem_cons_self) hasc hfirst

/-- Times that do not go back advance, unless one is before the epoch. -/
theorem advancing_of_ascending (h : Ascending lines)
    (hepoch : ∀ t ∈ lines.filterMap (·.time), toLex ((0, 0) : Int × Int) ≤ toLex t.pair) :
    Advancing lines :=
  (pairwise_carriedTimes h hepoch).1

/-- A line without a time counts as one of the epoch, before which a clock may stand. -/
theorem not_inOrder_of_ascending : ¬ ∀ stdout stderr, Ascending stdout → Ascending stderr →
    (mergedLines stdout stderr).Pairwise InOrder := by
  intro h
  have hpair := h [⟨none, .stdout, "continued"⟩, ⟨some ⟨-1, 0⟩, .stdout, "before the epoch"⟩] []
    (by decide) (by decide)
  exact absurd hpair (by decide)

/-- A line without a time stands right behind the line before it. -/
theorem infix_mergedLines (hmem : ∀ z ∈ keyLines stream (0, 0) 0 lines, z ∈ mergedLines stdout stderr)
    (hpair : (mergedLines stdout stderr).Pairwise fun x y => keyedLe x y = true)
    (h : [x, y] <:+: keyLines stream (0, 0) 0 lines) (hy : y.2.time = none) :
    [x, y] <:+: mergedLines stdout stderr := by
  have hx' : x ∈ mergedLines stdout stderr := hmem x (h.subset (by simp))
  have hy' : y ∈ mergedLines stdout stderr := hmem y (h.subset (by simp))
  obtain ⟨before, after, h⟩ := h
  have hkeys : keyLines stream (0, 0) 0 lines = before ++ x :: y :: after := by simpa using h.symm
  have hkey : y.1 = { x.1 with position := x.1.position + 1 } := key_of_untimed hkeys hy
  have hxy : keyedLe x y = true := by
    rw [keyedLe_iff_of_position_lt] <;> simp [hkey]
  have hne : x ≠ y := by
    intro heq
    have hpos := congrArg MergeKey.position hkey
    rw [heq] at hpos
    exact absurd hpos (Nat.lt_succ_self _).ne
  refine neighbours hpair nodup_mergedLines antisymm_mergedLines hx' hy' hxy hne fun z hz hxz hzy => ?_
  have heq {w : MergeKey × LogLine} (hw : w ∈ mergedLines stdout stderr) (hzw : z.1 = w.1) : z = w :=
    eq_of_keys_eq z (perm_mergedLines.mem_iff.mp hz) w (perm_mergedLines.mem_iff.mp hw) hzw
  exact (key_between hxz hzy hkey).imp (heq hx') (heq hy')

/-- **Nothing is lost and continuations stay attached.** What is returned are the lines of both streams,
each once; a line without a time stands right behind the line before it in its stream; and if the times
carried along each stream never go back, they do not go back in the result, where stdout comes first on
equal times. -/
theorem merged_lines (stdout stderr : List LogLine) :
    (mergedLines stdout stderr).map Prod.snd = mergeLogLines stdout stderr ∧
      (mergedLines stdout stderr).Perm
        (keyLines 0 (0, 0) 0 stdout ++ keyLines 1 (0, 0) 0 stderr) ∧
      (∀ x y, y.2.time = none →
        [x, y] <:+: keyLines 0 (0, 0) 0 stdout ∨ [x, y] <:+: keyLines 1 (0, 0) 0 stderr →
          [x, y] <:+: mergedLines stdout stderr) ∧
      (Advancing stdout → Advancing stderr → (mergedLines stdout stderr).Pairwise InOrder) := by
  refine ⟨map_snd_mergedLines, perm_mergedLines, fun x y hy h => ?_, pairwise_inOrder⟩
  have hout : ∀ z ∈ keyLines 0 (0, 0) 0 stdout, z ∈ mergedLines stdout stderr :=
    fun z hz => perm_mergedLines.mem_iff.mpr (List.mem_append_left _ hz)
  have herr : ∀ z ∈ keyLines 1 (0, 0) 0 stderr, z ∈ mergedLines stdout stderr :=
    fun z hz => perm_mergedLines.mem_iff.mpr (List.mem_append_right _ hz)
  by_cases he : stderr = []
  · subst he
    exact h.resolve_right (by simp [keyLines])
  by_cases ho : stdout = []
  · subst ho
    rw [mergedLines, if_neg (by simpa using he)]
    exact h.resolve_left (by simp [keyLines])
  have hpair := pairwise_mergedLines ho he
  exact h.elim (fun h => infix_mergedLines hout hpair h hy) (fun h => infix_mergedLines herr hpair h hy)

/-- A line and its continuation, with a line of the other stream at the same time. -/
theorem merged_lines_continued :
    let stdout : List LogLine := [⟨some ⟨1, 0⟩, .stdout, "first"⟩, ⟨none, .stdout, "continued"⟩]
    let stderr : List LogLine := [⟨some ⟨1, 0⟩, .stderr, "other"⟩]
    (mergedLines stdout stderr).Pairwise InOrder :=
  (merged_lines _ _).2.2.2 (by decide) (by decide)

end KeelsonDocker
