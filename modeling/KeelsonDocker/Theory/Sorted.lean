import Mathlib.Data.List.Nodup
import Mathlib.Data.List.Perm.Basic

/-!
# Parts of a sorted list

What a list sorted by a relation says of a part of it: a sublist that was in order stays as it was
(`filter_eq`), and elements with nothing between them become neighbours (`neighbours`). The relation need
only be antisymmetric on the list itself.
-/

namespace Sorted

variable {α : Type*} {r : α → α → Prop} {l l' : List α} {x y : α}

/-- No two elements of the list come before each other. -/
def Antisymm (r : α → α → Prop) (l : List α) : Prop :=
  ∀ x ∈ l, ∀ y ∈ l, r x y → r y x → x = y

/-- Sorting keeps what is in order already. -/
theorem filter_eq {p : α → Bool} (hperm : l.Perm l') (hl : l.Pairwise r)
    (hl' : (l'.filter p).Pairwise r) (hanti : Antisymm r l) : l.filter p = l'.filter p := by
  have hfilter : (l.filter p).Perm (l'.filter p) := hperm.filter p
  refine hfilter.eq_of_pairwise (fun x y hx hy => ?_) (hl.sublist List.filter_sublist) hl'
  exact hanti x (List.mem_of_mem_filter hx) y (List.mem_of_mem_filter (hfilter.mem_iff.mpr hy))

theorem neighbours (hl : l.Pairwise r) (hnodup : l.Nodup) (hanti : Antisymm r l) (hx : x ∈ l)
    (hy : y ∈ l) (hxy : r x y) (hne : x ≠ y)
    (hnone : ∀ z ∈ l, r x z → r z y → z = x ∨ z = y) : [x, y] <:+: l := by
  obtain ⟨before, after, rfl⟩ := List.append_of_mem hx
  obtain ⟨_, hafter, hbefore⟩ := List.pairwise_append.mp hl
  have hyafter : y ∈ after := by
    rcases List.mem_append.mp hy with hmem | hmem
    · exact absurd (hanti x hx y hy hxy (hbefore y hmem x List.mem_cons_self)) hne
    · exact (List.mem_cons.mp hmem).resolve_left hne.symm
  cases after with
  | nil => cases hyafter
  | cons z after =>
    have hxz : r x z := (List.pairwise_cons.mp hafter).1 z List.mem_cons_self
    have hxafter : x ∉ z :: after := (List.nodup_cons.mp hnodup.of_append_right).1
    have hzy : z = y := by
      rcases List.mem_cons.mp hyafter with rfl | hmem
      · rfl
      · have hzy : r z y := (List.pairwise_cons.mp (List.pairwise_cons.mp hafter).2).1 y hmem
        rcases hnone z (by simp) hxz hzy with rfl | heq
        · exact absurd List.mem_cons_self hxafter
        · exact heq
    exact ⟨before, after, by simp [hzy]⟩

end Sorted
