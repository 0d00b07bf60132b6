import KeelsonDocker.Model
import KeelsonDocker.Theory.Tail
import Mathlib.Algebra.GroupWithZero.Nat

/-!
# Merging and capping log lines

On streams whose lines carry non-decreasing times `mergeLogLines` is the merge of sorted lists
(`mergeLogLines_eq_merge`), and `capLogLines` keeps the longest suffix within both ceilings
(`longest_capLogLines`).
-/

namespace KeelsonDocker

open Tail

/-! ### The order of the merge -/

namespace MergeKey

/-- The key as an element of the lexicographic order. -/
def toTuple (k : MergeKey) : (ℤ ×ₗ ℤ) ×ₗ (ℕ ×ₗ ℕ) :=
  toLex (toLex k.carried, toLex (k.stream, k.position))

theorem le_iff {k k' : MergeKey} : k.le k' = true ↔ k.toTuple ≤ k'.toTuple := decide_eq_true_iff

theorem toTuple_injective : Function.Injective toTuple := by
  rintro ⟨c, s, p⟩ ⟨c', s', p'⟩ h
  simpa [toTuple] using h

theorem le_of_carried_lt {k k' : MergeKey} (h : toLex k.carried < toLex k'.carried) :
    k.le k' = true :=
  le_iff.mpr (Prod.Lex.toLex_le_toLex.mpr (.inl h))

theorem le_iff_of_carried_eq {k k' : MergeKey} (h : k.carried = k'.carried) :
    k.le k' = true ↔ toLex (k.stream, k.position) ≤ toLex (k'.stream, k'.position) := by
  rw [le_iff, toTuple, toTuple, Prod.Lex.toLex_le_toLex, h]
  simp

end MergeKey

/-- The order of the merge on keyed lines. -/
def keyedLe (x y : MergeKey × LogLine) : Bool := x.1.le y.1

theorem keyedLe_trans (x y z : MergeKey × LogLine) (h : keyedLe x y = true)
    (h' : keyedLe y z = true) : keyedLe x z = true :=
  MergeKey.le_iff.mpr ((MergeKey.le_iff.mp h).trans (MergeKey.le_iff.mp h'))

theorem keyedLe_total (x y : MergeKey × LogLine) : keyedLe x y = true ∨ keyedLe y x = true := by
  unfold keyedLe
  rw [MergeKey.le_iff, MergeKey.le_iff]
  exact le_total _ _

instance : Std.Total fun x y => keyedLe x y = true := ⟨keyedLe_total⟩

instance : IsTrans (MergeKey × LogLine) fun x y => keyedLe x y = true := ⟨keyedLe_trans⟩

/-! ### The keyed lines of a stream -/

/-- The time of a line, as the merge compares it. -/
def LogLine.stamp (line : LogLine) : Int × Int :=
  (line.time.map fun t => (t.seconds, t.nanos)).getD (0, 0)

/-- `x` is not later than `y`. -/
def LogLine.notAfter (x y : LogLine) : Bool := toLex x.stamp ≤ toLex y.stamp

variable {lines : List LogLine} {stream position : Nat} {carried : Int × Int}

@[simp] theorem map_snd_keyLines :
    (keyLines stream carried position lines).map Prod.snd = lines := by
  induction lines generalizing carried position with
  | nil => rfl
  | cons line lines ih => rw [keyLines, List.map_cons, ih]

theorem stream_of_mem_keyLines {x : MergeKey × LogLine}
    (h : x ∈ keyLines stream carried position lines) : x.1.stream = stream := by
  induction lines generalizing carried position with
  | nil => cases h
  | cons line lines ih =>
    rw [keyLines, List.mem_cons] at h
    rcases h with rfl | h
    · rfl
    · exact ih h

theorem position_le_of_mem_keyLines {x : MergeKey × LogLine}
    (h : x ∈ keyLines stream carried position lines) : position ≤ x.1.position := by
  induction lines generalizing carried position with
  | nil => cases h
  | cons line lines ih =>
    rw [keyLines, List.mem_cons] at h
    rcases h with rfl | h
    · exact le_rfl
    · exact Nat.le_of_succ_le (ih h)

/-- The positions grow along the stream. -/
theorem pairwise_position_keyLines :
    (keyLines stream carried position lines).Pairwise fun x y => x.1.position < y.1.position := by
  induction lines generalizing carried position with
  | nil => exact .nil
  | cons line lines ih => exact .cons (fun _ hx => position_le_of_mem_keyLines hx) ih

/-- What the key of a line with a time says of it. -/
theorem of_mem_keyLines (htimed : ∀ line ∈ lines, line.time.isSome) {k : MergeKey} {line : LogLine}
    (h : (k, line) ∈ keyLines stream carried position lines) :
    k.carried = line.stamp ∧ line ∈ lines := by
  induction lines generalizing carried position with
  | nil => cases h
  | cons first lines ih =>
    rw [keyLines, List.mem_cons] at h
    rcases h with h | h
    · cases h
      obtain ⟨t, ht⟩ := Option.isSome_iff_exists.mp (htimed line List.mem_cons_self)
      exact ⟨by simp [LogLine.stamp, ht], List.mem_cons_self⟩
    · have htimed' : ∀ line ∈ lines, line.time.isSome :=
        fun line hline => htimed line (List.mem_cons_of_mem first hline)
      obtain ⟨hc, hm⟩ := ih htimed' h
      exact ⟨hc, List.mem_cons_of_mem first hm⟩

theorem pairwise_keyLines (htimed : ∀ line ∈ lines, line.time.isSome)
    (hsorted : lines.Pairwise (·.notAfter ·)) :
    (keyLines stream carried position lines).Pairwise (keyedLe · ·) := by
  induction lines generalizing carried position with
  | nil => exact .nil
  | cons line lines ih =>
    have htimed' : ∀ line ∈ lines, line.time.isSome :=
      fun line' hline => htimed line' (List.mem_cons_of_mem line hline)
    obtain ⟨hfirst, hrest⟩ := List.pairwise_cons.mp hsorted
    refine .cons (fun ⟨k, l⟩ hk => ?_) (ih htimed' hrest)
    obtain ⟨hc, hm⟩ := of_mem_keyLines htimed' hk
    obtain ⟨t, ht⟩ := Option.isSome_iff_exists.mp (htimed line List.mem_cons_self)
    have hstamp : (line.time.map fun t => (t.seconds, t.nanos)).getD carried = line.stamp := by
      simp [LogLine.stamp, ht]
    rcases (of_decide_eq_true (hfirst l hm)).lt_or_eq with hlt | heq
    · exact MergeKey.le_of_carried_lt (by rw [hstamp, hc]; exact hlt)
    · apply (MergeKey.le_iff_of_carried_eq (by rw [hstamp, hc]; exact heq)).mpr
      have hs : k.stream = stream := stream_of_mem_keyLines hk
      have hp : position + 1 ≤ k.position := position_le_of_mem_keyLines hk
      exact Prod.Lex.toLex_le_toLex.mpr (.inr ⟨hs.symm, Nat.le_of_succ_le hp⟩)

/-! ### The merge -/

/-- Sorting two sorted lists together merges them when no key occurs twice. -/
theorem insertionSort_append {K K' : List (MergeKey × LogLine)} (hK : K.Pairwise (keyedLe · ·))
    (hK' : K'.Pairwise (keyedLe · ·))
    (hinj : ∀ x ∈ K ++ K', ∀ y ∈ K ++ K', x.1 = y.1 → x = y) :
    (K ++ K').insertionSort (fun x y => keyedLe x y = true) = K.merge K' keyedLe := by
  have hsort := List.pairwise_insertionSort (fun x y => keyedLe x y = true) (K ++ K')
  have hmerge := List.pairwise_merge keyedLe_trans (fun x y => by simpa using keyedLe_total x y)
    K K' hK hK'
  have hperm := (List.perm_insertionSort (fun x y => keyedLe x y = true) (K ++ K')).trans
    (List.merge_perm_append keyedLe).symm
  refine hperm.eq_of_pairwise (fun x y hx hy hxy hyx => ?_) hsort hmerge
  refine hinj x ((List.mem_insertionSort _).mp hx) y
    ((List.merge_perm_append keyedLe).mem_iff.mp hy) (MergeKey.toTuple_injective ?_)
  exact le_antisymm (MergeKey.le_iff.mp hxy) (MergeKey.le_iff.mp hyx)

/-- Lines with times that do not decrease. -/
structure Ordered (lines : List LogLine) : Prop where
  timed : ∀ line ∈ lines, line.time.isSome
  sorted : lines.Pairwise (·.notAfter ·)

theorem Ordered.last (h : Ordered lines) (n : Nat) : Ordered (last n lines) where
  timed line hline := h.timed line ((last_suffix n lines).subset hline)
  sorted := h.sorted.sublist (last_suffix n lines).sublist

variable {stdout stderr : List LogLine}

/-- A key occurs once among the keyed lines of both streams. -/
theorem eq_of_keys_eq {stdout stderr : List LogLine} :
    ∀ x ∈ keyLines 0 (0, 0) 0 stdout ++ keyLines 1 (0, 0) 0 stderr,
      ∀ y ∈ keyLines 0 (0, 0) 0 stdout ++ keyLines 1 (0, 0) 0 stderr, x.1 = y.1 → x = y := by
  intro x hx y hy h
  have inj {stream : Nat} {lines : List LogLine} (hx : x ∈ keyLines stream (0, 0) 0 lines)
      (hy : y ∈ keyLines stream (0, 0) 0 lines) : x = y := by
    have hnodup : ((keyLines stream (0, 0) 0 lines).map fun x => x.1.position).Nodup :=
      List.pairwise_map.mpr (pairwise_position_keyLines.imp Nat.ne_of_lt)
    exact List.inj_on_of_nodup_map hnodup hx hy (by rw [h])
  rcases List.mem_append.mp hx with hx | hx <;> rcases List.mem_append.mp hy with hy | hy
  · exact inj hx hy
  · have hs := stream_of_mem_keyLines hx
    rw [h, stream_of_mem_keyLines hy] at hs
    cases hs
  · have hs := stream_of_mem_keyLines hx
    rw [h, stream_of_mem_keyLines hy] at hs
    cases hs
  · exact inj hx hy

/-- Between the streams the times decide, and on equal times stdout comes first. -/
theorem keyedLe_eq_notAfter (hout : Ordered stdout) (herr : Ordered stderr) :
    ∀ x ∈ keyLines 0 (0, 0) 0 stdout, ∀ y ∈ keyLines 1 (0, 0) 0 stderr,
      keyedLe x y = x.2.notAfter y.2 := by
  rintro ⟨k, x⟩ hx ⟨k', y⟩ hy
  obtain ⟨hc, -⟩ := of_mem_keyLines hout.timed hx
  obtain ⟨hc', -⟩ := of_mem_keyLines herr.timed hy
  have hs : k.stream = 0 := stream_of_mem_keyLines hx
  have hs' : k'.stream = 1 := stream_of_mem_keyLines hy
  have hpos : toLex (k.stream, k.position) ≤ toLex (k'.stream, k'.position) :=
    Prod.Lex.toLex_le_toLex.mpr (.inl (by rw [hs, hs']; exact Nat.one_pos))
  rw [Bool.eq_iff_iff, keyedLe, MergeKey.le_iff, LogLine.notAfter, decide_eq_true_iff, ← hc, ← hc',
    MergeKey.toTuple, MergeKey.toTuple, Prod.Lex.toLex_le_toLex, and_iff_left hpos]
  exact le_iff_lt_or_eq.symm

theorem mergeLogLines_eq_merge (hout : Ordered stdout) (herr : Ordered stderr) :
    mergeLogLines stdout stderr = stdout.merge stderr LogLine.notAfter := by
  unfold mergeLogLines
  by_cases he : stderr = []
  · simp [he]
  by_cases ho : stdout = []
  · simp [ho]
  simp only [List.isEmpty_iff, he, ho, if_false]
  have hsort := insertionSort_append (pairwise_keyLines hout.timed hout.sorted)
    (pairwise_keyLines herr.timed herr.sorted) eq_of_keys_eq
  have hmap := List.map_merge (keyedLe_eq_notAfter hout herr)
  rw [map_snd_keyLines, map_snd_keyLines, ← hsort] at hmap
  exact hmap

/-- The last lines of the whole are among the last lines of each stream. -/
theorem last_mergeLogLines (hout : Ordered stdout) (herr : Ordered stderr) (n : Nat) :
    last n (mergeLogLines (last n stdout) (last n stderr)) =
      last n (mergeLogLines stdout stderr) := by
  have htrans : ∀ x y z : LogLine, x.notAfter y = true → y.notAfter z = true → x.notAfter z = true :=
    fun x y z h h' => decide_eq_true ((of_decide_eq_true h).trans (of_decide_eq_true h'))
  rw [mergeLogLines_eq_merge (hout.last n) (herr.last n), mergeLogLines_eq_merge hout herr]
  exact last_merge htrans hout.sorted herr.sorted le_rfl le_rfl

/-! ### The ceilings -/

/-- What a list of lines counts towards the byte ceiling. -/
def totalSize (lines : List LogLine) : Nat := (lines.map LogLine.size).sum

/-- The loop of `capLogLines` stops before the first line that does not fit. -/
theorem countFitting_spec (maxBytes : Int) (total : Nat) (lines : List LogLine) :
    countFitting maxBytes total lines ≤ lines.length ∧
      (total ≤ maxBytes →
        total + totalSize (lines.take (countFitting maxBytes total lines)) ≤ maxBytes) ∧
      (countFitting maxBytes total lines < lines.length →
        maxBytes < total + totalSize (lines.take (countFitting maxBytes total lines + 1))) := by
  induction lines generalizing total with
  | nil => simp [countFitting, totalSize]
  | cons line lines ih =>
    rw [countFitting]
    by_cases h : maxBytes < (total + line.size : Nat)
    · simp only [h, if_true]
      refine ⟨Nat.zero_le _, by simp [totalSize], fun _ => ?_⟩
      simpa [totalSize] using h
    · simp only [h, if_false]
      obtain ⟨hle, hfit, hnext⟩ := ih (total + line.size)
      refine ⟨Nat.succ_le_succ hle, fun _ => ?_, fun hlt => ?_⟩
      · have := hfit (by omega)
        simp only [List.take_succ_cons, totalSize, List.map_cons, List.sum_cons] at this ⊢
        push_cast at this ⊢
        omega
      · have := hnext (Nat.lt_of_succ_lt_succ hlt)
        simp only [List.take_succ_cons, totalSize, List.map_cons, List.sum_cons] at this ⊢
        push_cast at this ⊢
        omega

theorem totalSize_take_reverse (k : Nat) (lines : List LogLine) :
    totalSize (lines.reverse.take k) = totalSize (last k lines) := by
  rw [List.take_reverse, totalSize, List.map_reverse, List.sum_reverse]
  rfl

/-- How many lines `capLogLines` keeps. -/
def fitting (n : Nat) (maxBytes : Int) (lines : List LogLine) : Nat :=
  countFitting maxBytes 0 (last n lines).reverse

/-- As many as fit: within both ceilings, while one more would break one of them. -/
theorem fitting_spec (n : Nat) {maxBytes : Int} (hb : 1 ≤ maxBytes) (lines : List LogLine) :
    fitting n maxBytes lines ≤ min n lines.length ∧
      totalSize (last (fitting n maxBytes lines) lines) ≤ maxBytes ∧
      (fitting n maxBytes lines < min n lines.length →
        maxBytes < totalSize (last (fitting n maxBytes lines + 1) lines)) := by
  obtain ⟨hle, hfit, hnext⟩ := countFitting_spec maxBytes 0 (last n lines).reverse
  rw [List.length_reverse, length_last] at hle hnext
  refine ⟨hle, ?_, fun hlt => ?_⟩
  · have := hfit (by omega)
    rw [totalSize_take_reverse, last_last (hle.trans (min_le_left ..))] at this
    simpa [fitting] using this
  · have hlt' : countFitting maxBytes 0 (last n lines).reverse + 1 ≤ n :=
      hlt.trans_le (min_le_left ..)
    have := hnext hlt
    rw [totalSize_take_reverse, last_last hlt'] at this
    simpa [fitting] using this

theorem capLogLines_eq {n : Nat} {maxBytes : Int} (hn : 1 ≤ n) (hb : 1 ≤ maxBytes)
    (lines : List LogLine) : capLogLines lines n maxBytes =
      (last (fitting n maxBytes lines) lines, decide (fitting n maxBytes lines < lines.length)) := by
  obtain ⟨hle, -, -⟩ := fitting_spec n hb lines
  have hlen := length_last n lines
  have hfirst : (if 0 < (n : Int) && (n : Int) < lines.length then
      (lines.drop (lines.length - (n : Int).toNat), true) else (lines, false)) =
      (last n lines, decide (n < lines.length)) := by
    by_cases hlt : n < lines.length
    · simp [hlt, last, Nat.pos_of_ne_zero (by omega : n ≠ 0)]
    · simp [hlt, last_of_length_le (Nat.le_of_not_lt hlt)]
  have hlast : last (fitting n maxBytes lines) (last n lines) = last (fitting n maxBytes lines) lines :=
    last_last (hle.trans (min_le_left ..)) lines
  unfold capLogLines
  rw [hfirst]
  dsimp only
  rw [if_pos (by omega : 0 < maxBytes), ← fitting]
  by_cases hstart : 0 < (last n lines).length - fitting n maxBytes lines
  · rw [if_pos hstart, ← hlast, decide_eq_true (by omega : fitting n maxBytes lines < lines.length)]
    rfl
  · have hall : fitting n maxBytes lines = (last n lines).length := by omega
    rw [if_neg hstart, ← hlast, last_of_length_le hall.ge, hall, hlen]
    congr 2
    exact propext ⟨fun h => by omega, fun h => by omega⟩

/-- The cap keeps the longest suffix within both ceilings. -/
theorem longest_capLogLines {n : Nat} {maxBytes : Int} (hn : 1 ≤ n) (hb : 1 ≤ maxBytes)
    (lines : List LogLine) :
    Longest (fun s => s.length ≤ n ∧ totalSize s ≤ maxBytes) lines
      (capLogLines lines n maxBytes).1 := by
  obtain ⟨hle, hfit, hnext⟩ := fitting_spec n hb lines
  rw [capLogLines_eq hn hb]
  refine .of_next (fun s s' hs hP => ?_) (Nat.sub_le _ _) ⟨?_, hfit⟩ fun j hj hP => ?_
  · obtain ⟨t, rfl⟩ := hs
    have := hP.2
    rw [totalSize, List.map_append, List.sum_append] at this
    exact ⟨(List.sublist_append_right t s).length_le.trans hP.1, by
      unfold totalSize
      omega⟩
  · rw [← last, length_last]
    omega
  · have hj' : lines.drop j = last (fitting n maxBytes lines + 1) lines := by
      rw [last]
      congr 1
      omega
    rw [hj', length_last] at hP
    have := hnext (by omega)
    omega

/-- The cap tells whether it left a line out. -/
theorem capLogLines_truncated {n : Nat} {maxBytes : Int} (hn : 1 ≤ n) (hb : 1 ≤ maxBytes)
    (lines : List LogLine) : (capLogLines lines n maxBytes).2 = true ↔
      (capLogLines lines n maxBytes).1.length < lines.length := by
  rw [capLogLines_eq hn hb, length_last, decide_eq_true_iff]
  omega

end KeelsonDocker
