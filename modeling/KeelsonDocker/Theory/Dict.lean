import Mathlib.Data.List.Nodup

/-!
# Dictionaries that keep the order of insertion

As lists of entries whose keys differ. Setting a key that is there leaves it in its place.
-/

namespace Dict

variable {κ ν : Type} [DecidableEq κ]

def set (k : κ) (v : ν) (d : List (κ × ν)) : List (κ × ν) :=
  if k ∈ d.map Prod.fst then d.map fun entry => if entry.1 = k then (k, v) else entry
  else d ++ [(k, v)]

def pop (k : κ) (d : List (κ × ν)) : List (κ × ν) := d.filter (·.1 ≠ k)

variable {k j : κ} {v w : ν} {d : List (κ × ν)}

theorem keys_set_of_mem (h : k ∈ d.map Prod.fst) : (set k v d).map Prod.fst = d.map Prod.fst := by
  rw [set, if_pos h, List.map_map]
  refine List.map_congr_left fun entry _ => ?_
  simp only [Function.comp_apply]
  split
  · rename_i hk
    exact hk.symm
  · rfl

theorem keys_set_of_not_mem (h : k ∉ d.map Prod.fst) :
    (set k v d).map Prod.fst = d.map Prod.fst ++ [k] := by
  rw [set, if_neg h, List.map_append]
  rfl

theorem mem_keys_set : j ∈ (set k v d).map Prod.fst ↔ j = k ∨ j ∈ d.map Prod.fst := by
  by_cases h : k ∈ d.map Prod.fst
  · rw [keys_set_of_mem h]
    refine ⟨.inr, ?_⟩
    rintro (rfl | hj)
    · exact h
    · exact hj
  · rw [keys_set_of_not_mem h, List.mem_append, List.mem_singleton, or_comm]

theorem mem_set_self : (k, v) ∈ set k v d := by
  by_cases h : k ∈ d.map Prod.fst
  · rw [set, if_pos h]
    obtain ⟨entry, hentry, rfl⟩ := List.mem_map.mp h
    exact List.mem_map.mpr ⟨entry, hentry, if_pos rfl⟩
  · rw [set, if_neg h]
    exact List.mem_append_right _ List.mem_cons_self

theorem mem_set_of_ne (h : j ≠ k) (hmem : (j, w) ∈ d) : (j, w) ∈ set k v d := by
  by_cases hk : k ∈ d.map Prod.fst
  · rw [set, if_pos hk]
    exact List.mem_map.mpr ⟨(j, w), hmem, if_neg h⟩
  · rw [set, if_neg hk]
    exact List.mem_append_left _ hmem

theorem mem_values_set (h : w ∈ (set k v d).map Prod.snd) : w = v ∨ w ∈ d.map Prod.snd := by
  unfold set at h
  split at h
  · rw [List.map_map, List.mem_map] at h
    obtain ⟨entry, hentry, rfl⟩ := h
    simp only [Function.comp_apply]
    split
    · exact .inl rfl
    · exact .inr (List.mem_map_of_mem hentry)
  · rw [List.map_append, List.mem_append] at h
    obtain h | h := h
    · exact .inr h
    · exact .inl (List.mem_singleton.mp h)

theorem mem_pop_of_ne (h : j ≠ k) (hmem : (j, w) ∈ d) : (j, w) ∈ pop k d :=
  List.mem_filter.mpr ⟨hmem, decide_eq_true h⟩

theorem mem_keys_pop (h : j ∈ (pop k d).map Prod.fst) : j ∈ d.map Prod.fst :=
  (List.filter_sublist.map Prod.fst).subset h

theorem mem_keys_pop_iff : j ∈ (pop k d).map Prod.fst ↔ j ∈ d.map Prod.fst ∧ j ≠ k := by
  constructor
  · intro h
    obtain ⟨entry, hentry, rfl⟩ := List.mem_map.mp h
    obtain ⟨hmem, hne⟩ := List.mem_filter.mp hentry
    exact ⟨List.mem_map_of_mem hmem, of_decide_eq_true hne⟩
  · rintro ⟨h, hne⟩
    obtain ⟨⟨_, w⟩, hmem, rfl⟩ := List.mem_map.mp h
    exact List.mem_map_of_mem (mem_pop_of_ne hne hmem)

theorem mem_values_pop (h : w ∈ (pop k d).map Prod.snd) : w ∈ d.map Prod.snd :=
  (List.filter_sublist.map Prod.snd).subset h

end Dict
