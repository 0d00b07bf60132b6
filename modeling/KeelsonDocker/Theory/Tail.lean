import Mathlib.Data.List.Basic
import Mathlib.Data.List.Infix

/-!
# Tails of lists

`Tail.last n l` is the last `n` elements, `Tail.Longest P l s` says that `s` is the longest suffix of `l`
with `P`. Merging two sorted lists works from the end as it does from the front, so that the last `n`
elements of a merge only depend on the last `n` of each side (`last_merge`).
-/

namespace Tail

variable {α β : Type} {n a b : Nat} {l l' s : List α}

def last (n : Nat) (l : List α) : List α := l.drop (l.length - n)

theorem last_suffix (n : Nat) (l : List α) : last n l <:+ l := List.drop_suffix _ l

theorem length_last (n : Nat) (l : List α) : (last n l).length = min n l.length := by
  rw [last, List.length_drop]
  omega

theorem last_of_length_le (h : l.length ≤ n) : last n l = l := by
  rw [last, Nat.sub_eq_zero_of_le h, List.drop_zero]

@[simp] theorem last_nil : last n ([] : List α) = [] := last_of_length_le (Nat.zero_le n)

@[simp] theorem last_zero : last 0 l = [] := by
  rw [last, Nat.sub_zero, List.drop_length]

theorem last_succ_concat (n : Nat) (l : List α) (x : α) :
    last (n + 1) (l ++ [x]) = last n l ++ [x] := by
  have h : (l ++ [x]).length - (n + 1) = l.length - n := by
    rw [List.length_append, List.length_singleton]
    omega
  rw [last, h, List.drop_append_of_le_length (Nat.sub_le _ _), last]

theorem last_last (h : n ≤ a) (l : List α) : last n (last a l) = last n l := by
  rw [last, length_last, last, last, List.drop_drop]
  congr 1
  omega

theorem map_last (f : α → β) (n : Nat) (l : List α) : (last n l).map f = last n (l.map f) := by
  rw [last, last, List.map_drop, List.length_map]

theorem suffix_last (h : s <:+ l) (hn : s.length ≤ n) : s <:+ last n l :=
  List.suffix_of_suffix_length_le h (last_suffix n l) (by
    rw [length_last]
    exact Nat.le_min.mpr ⟨hn, h.length_le⟩)

/-! ### Longest suffixes -/

structure Longest (P : List α → Prop) (l s : List α) : Prop where
  suffix : s <:+ l
  holds : P s
  longest : ∀ s', s' <:+ l → P s' → s'.length ≤ s.length

/-- Of two properties with a bound on the length, the longest suffix only depends on the tails. -/
theorem Longest.of_last_eq {P : List α → Prop} (h : Longest P l s)
    (hP : ∀ s, P s → s.length ≤ n) (heq : last n l = last n l') : Longest P l' s where
  suffix := (suffix_last h.suffix (hP s h.holds)).trans (heq ▸ last_suffix n l')
  holds := h.holds
  longest s' hs' hs := by
    have hl : s' <:+ last n l := heq ▸ suffix_last hs' (hP s' hs)
    exact h.longest s' (hl.trans (last_suffix n l)) hs

/-- A suffix with `P` is the longest one as soon as the next longer one has not `P`. -/
theorem Longest.of_next {P : List α → Prop} (hmono : ∀ s s', s <:+ s' → P s' → P s) {k : Nat}
    (hk : k ≤ l.length) (hP : P (l.drop k)) (hnext : ∀ j, k = j + 1 → ¬ P (l.drop j)) :
    Longest P l (l.drop k) where
  suffix := List.drop_suffix k l
  holds := hP
  longest s' hs' hs := by
    by_contra hlt
    rw [List.length_drop] at hlt
    have hle := hs'.length_le
    obtain ⟨j, rfl⟩ : ∃ j, k = j + 1 := Nat.exists_eq_succ_of_ne_zero (by omega)
    refine hnext j rfl (hmono _ s' ?_ hs)
    apply List.suffix_of_suffix_length_le (List.drop_suffix j l) hs'
    rw [List.length_drop]
    omega

theorem longest_self {P : List α → Prop} (h : P l) : Longest P l l :=
  ⟨List.suffix_rfl, h, fun _ hs _ => hs.length_le⟩

theorem longest_last (n : Nat) (l : List α) : Longest (fun s => s.length ≤ n) l (last n l) where
  suffix := last_suffix n l
  holds := by
    rw [length_last]
    exact min_le_left ..
  longest s' hs' hn := (suffix_last hs' hn).length_le

/-- The longest suffix with `Q` of the longest one with `P` is the longest with both. -/
theorem Longest.and {P Q : List α → Prop} {k : List α} (h : Longest P l k) (h' : Longest Q k s)
    (hmono : ∀ s s', s <:+ s' → P s' → P s) : Longest (fun s => P s ∧ Q s) l s where
  suffix := h'.suffix.trans h.suffix
  holds := ⟨hmono s k h'.suffix h.holds, h'.holds⟩
  longest s' hs' hPQ := by
    have hk : s' <:+ k := List.suffix_of_suffix_length_le hs' h.suffix (h.longest s' hs' hPQ.1)
    exact h'.longest s' hk hPQ.2

/-! ### Merges from the end -/

variable {le : α → α → Bool} {xs ys : List α} {x y : α}

theorem merge_concat_right (h : ∀ x ∈ xs, le x y = true) :
    xs.merge (ys ++ [y]) le = xs.merge ys le ++ [y] := by
  induction xs generalizing ys with
  | nil => simp
  | cons x xs ihx =>
    have hx := h x List.mem_cons_self
    have hxs : ∀ x ∈ xs, le x y = true := fun x' hx' => h x' (List.mem_cons_of_mem x hx')
    induction ys with
    | nil =>
      have hnil : xs.merge ([] ++ [y]) le = xs.merge [] le ++ [y] := ihx hxs
      simpa [List.merge, hx] using hnil
    | cons y' ys ihy =>
      rw [List.cons_append, List.cons_merge_cons, List.cons_merge_cons]
      split
      · rw [List.cons_append, ← ihx hxs, List.cons_append]
      · rw [List.cons_append, ← ihy]

theorem merge_concat_left (h : ∀ y ∈ ys, le x y = false) :
    (xs ++ [x]).merge ys le = xs.merge ys le ++ [x] := by
  induction ys generalizing xs with
  | nil => simp
  | cons y ys ihy =>
    have hy := h y List.mem_cons_self
    have hys : ∀ y ∈ ys, le x y = false := fun y' hy' => h y' (List.mem_cons_of_mem y hy')
    induction xs with
    | nil =>
      have hnil : ([] ++ [x]).merge ys le = [].merge ys le ++ [x] := ihy hys
      simpa [List.merge, hy] using hnil
    | cons x' xs ihx =>
      rw [List.cons_append, List.cons_merge_cons, List.cons_merge_cons]
      split
      · rw [List.cons_append, ← ihx]
      · rw [List.cons_append, ← ihy hys, List.cons_append]

theorem last_merge (trans : ∀ x y z, le x y = true → le y z = true → le x z = true)
    (hxs : xs.Pairwise (le · ·)) (hys : ys.Pairwise (le · ·)) (ha : n ≤ a) (hb : n ≤ b) :
    last n ((last a xs).merge (last b ys) le) = last n (xs.merge ys le) := by
  induction n generalizing xs ys a b with
  | zero => rw [last_zero, last_zero]
  | succ n ih =>
    rcases xs.eq_nil_or_concat' with rfl | ⟨xs, x, rfl⟩
    · rw [last_nil, List.nil_merge, List.nil_merge, last_last hb]
    rcases ys.eq_nil_or_concat' with rfl | ⟨ys, y, rfl⟩
    · rw [last_nil, List.merge_right, List.merge_right, last_last ha]
    obtain ⟨a, rfl⟩ : ∃ a', a = a' + 1 := Nat.exists_eq_succ_of_ne_zero (by omega)
    obtain ⟨b, rfl⟩ : ∃ b', b = b' + 1 := Nat.exists_eq_succ_of_ne_zero (by omega)
    obtain ⟨hxs', -, hx⟩ := List.pairwise_append.mp hxs
    obtain ⟨hys', -, hy⟩ := List.pairwise_append.mp hys
    cases h : le x y with
    | true =>
      -- The last element of the merge is `y`: nothing on the left is greater.
      have hle : ∀ x' ∈ xs ++ [x], le x' y = true := by
        intro x' hx'
        rcases List.mem_append.mp hx' with hx' | hx'
        · exact trans x' x y (hx x' hx' x (List.mem_singleton_self x)) h
        · exact List.mem_singleton.mp hx' ▸ h
      have hle' : ∀ x' ∈ last (a + 1) (xs ++ [x]), le x' y = true :=
        fun x' hx' => hle x' ((last_suffix _ _).subset hx')
      calc last (n + 1) ((last (a + 1) (xs ++ [x])).merge (last (b + 1) (ys ++ [y])) le)
          = last n ((last (a + 1) (xs ++ [x])).merge (last b ys) le) ++ [y] := by
            rw [last_succ_concat b, merge_concat_right hle', last_succ_concat n]
        _ = last n ((xs ++ [x]).merge ys le) ++ [y] := by
            rw [ih hxs hys' (by omega) (by omega)]
        _ = last (n + 1) ((xs ++ [x]).merge (ys ++ [y]) le) := by
            rw [merge_concat_right hle, last_succ_concat]
    | false =>
      -- It is `x`: nothing on the right is as great.
      have hlt : ∀ y' ∈ ys ++ [y], le x y' = false := by
        intro y' hy'
        rcases List.mem_append.mp hy' with hy' | hy'
        · by_contra hne
          have := trans x y' y (by simpa using hne) (hy y' hy' y (List.mem_singleton_self y))
          rw [h] at this
          cases this
        · exact List.mem_singleton.mp hy' ▸ h
      have hlt' : ∀ y' ∈ last (b + 1) (ys ++ [y]), le x y' = false :=
        fun y' hy' => hlt y' ((last_suffix _ _).subset hy')
      calc last (n + 1) ((last (a + 1) (xs ++ [x])).merge (last (b + 1) (ys ++ [y])) le)
          = last n ((last a xs).merge (last (b + 1) (ys ++ [y])) le) ++ [x] := by
            rw [last_succ_concat a, merge_concat_left hlt', last_succ_concat n]
        _ = last n (xs.merge (ys ++ [y]) le) ++ [x] := by
            rw [ih hxs' hys (by omega) (by omega)]
        _ = last (n + 1) ((xs ++ [x]).merge (ys ++ [y]) le) := by
            rw [merge_concat_left hlt, last_succ_concat]

end Tail
