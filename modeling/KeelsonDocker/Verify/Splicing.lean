import KeelsonDocker.Theory.Effect
import KeelsonDocker.Yaml

/-!
# What `flatten_mapping` leaves alone

Splicing moves pairs from mappings into others. No scalar changes, but for keys written `=`, which become
strings; and where keys are scalars, they are afterwards.
-/

namespace KeelsonDocker.Yaml

open Effect

section

variable {ι : Type}

/-- The keys of every mapping are scalars. -/
def ScalarKeys (nodes : Nodes ι) : Prop :=
  ∀ m, ∀ pair ∈ nodes.pairs m, (nodes pair.1).content.isScalar

instance {n : Nat} (nodes : Nodes (Fin n)) : Decidable (ScalarKeys nodes) :=
  inferInstanceAs (Decidable (∀ _, _))

/-- The nodes as keys: one written `=` is a string. -/
def Nodes.asKeys (nodes : Nodes ι) : Nodes ι := fun id =>
  if (nodes id).tag = VALUE then { nodes id with tag := STR } else nodes id

@[simp] theorem Nodes.pairs_asKeys (nodes : Nodes ι) (m : ι) : nodes.asKeys.pairs m = nodes.pairs m := by
  rw [pairs, asKeys]
  split <;> rfl

@[simp] theorem Nodes.isMerge_asKeys (nodes : Nodes ι) (pair : ι × ι) :
    nodes.asKeys.isMerge pair = nodes.isMerge pair := by
  rw [isMerge, asKeys]
  split
  · rename_i h
    simp [isMerge, h, show STR ≠ MERGE by decide, show VALUE ≠ MERGE by decide]
  · rfl

/-- A pair of one of the mappings. -/
def Nodes.Has (nodes : Nodes ι) (pair : ι × ι) : Prop := ∃ m, pair ∈ nodes.pairs m

/-- Pairs have gone from mappings into others, and keys written `=` have become strings. -/
structure Respliced (nodes nodes' : Nodes ι) : Prop where
  tag : ∀ id, (nodes id).tag ≠ VALUE → (nodes' id).tag = (nodes id).tag
  scalar : ∀ id text, (nodes' id).content = .scalar text ↔ (nodes id).content = .scalar text
  pairs : ∀ pair, nodes'.Has pair → nodes.Has pair

namespace Respliced

variable {nodes nodes' nodes'' : Nodes ι} {id : ι}

theorem refl (nodes : Nodes ι) : Respliced nodes nodes := ⟨fun _ _ => rfl, fun _ _ => .rfl, fun _ h => h⟩

theorem trans (h : Respliced nodes nodes') (h' : Respliced nodes' nodes'') : Respliced nodes nodes'' where
  tag id hid := by rw [h'.tag id (by rwa [h.tag id hid]), h.tag id hid]
  scalar id text := (h'.scalar id text).trans (h.scalar id text)
  pairs pair hpair := h.pairs pair (h'.pairs pair hpair)

theorem scalarKeys (h : Respliced nodes nodes') (hkeys : ScalarKeys nodes) : ScalarKeys nodes' := by
  intro m pair hpair
  obtain ⟨m', hm'⟩ := h.pairs pair ⟨m, hpair⟩
  obtain ⟨text, htext⟩ := Content.isScalar_iff.mp (hkeys m' pair hm')
  exact Content.isScalar_iff.mpr ⟨text, (h.scalar _ _).mpr htext⟩

/-- A scalar is what it was, but for one written `=`. -/
theorem eq_of_scalar (h : Respliced nodes nodes') {text : String} (hid : (nodes id).content = .scalar text)
    (htag : (nodes id).tag ≠ VALUE) : nodes' id = nodes id := by
  have htag' := h.tag id htag
  have hid' := (h.scalar id text).mpr hid
  cases hnode : nodes id
  cases hnode' : nodes' id
  simp_all

variable [DecidableEq ι]

theorem setPairs (h : Respliced nodes nodes') (hid : ∀ text, (nodes id).content ≠ .scalar text)
    {pairs : List (ι × ι)} (hpairs : ∀ pair ∈ pairs, nodes.Has pair) :
    Respliced nodes (nodes'.setPairs id pairs) := by
  have hother {other : ι} (hne : other ≠ id) : nodes'.setPairs id pairs other = nodes' other :=
    Function.update_of_ne hne ..
  have hself : nodes'.setPairs id pairs id = { nodes' id with content := .mapping pairs } :=
    Function.update_self ..
  constructor
  · intro other htag
    by_cases hne : other = id
    · subst hne
      rw [hself, ← h.tag other htag]
    · rw [hother hne, h.tag other htag]
  · intro other text
    by_cases hne : other = id
    · subst hne
      rw [hself]
      exact iff_of_false nofun (hid text)
    · rw [hother hne, h.scalar]
  · rintro pair ⟨m, hpair⟩
    by_cases hne : m = id
    · subst hne
      rw [Nodes.pairs, hself] at hpair
      exact hpairs pair hpair
    · rw [Nodes.pairs, hother hne] at hpair
      exact h.pairs pair ⟨m, hpair⟩

theorem retag (nodes : Nodes ι) (pairs : List (ι × ι)) : Respliced nodes (nodes.retag pairs) := by
  have hcontent (id : ι) : (nodes.retag pairs id).content = (nodes id).content := by
    rw [Nodes.retag]
    split <;> rfl
  constructor
  · intro id hid
    rw [Nodes.retag, if_neg fun h => hid h.1]
  · intro id text
    rw [hcontent]
  · rintro pair ⟨m, hpair⟩
    rw [Nodes.pairs, hcontent] at hpair
    exact ⟨m, hpair⟩

end Respliced

theorem mem_of_firstMerge {nodes : Nodes ι} {value : ι} : ∀ {pairs rest : List (ι × ι)},
    firstMerge nodes pairs = some (value, rest) → ∀ pair ∈ rest, pair ∈ pairs := by
  intro pairs
  induction pairs with
  | nil => exact fun h => nomatch h
  | cons first pairs ih =>
    intro rest h pair hpair
    rw [firstMerge] at h
    split at h
    · cases h
      exact List.mem_cons_of_mem _ hpair
    · obtain ⟨⟨v, rest'⟩, hrest, heq⟩ := Option.map_eq_some_iff.mp h
      cases heq
      rcases List.mem_cons.mp hpair with rfl | hpair
      · exact List.mem_cons_self
      · exact List.mem_cons_of_mem _ (ih hrest pair hpair)

section

variable {flatten : Nodes ι → ι → Except LoadError (Nodes ι)} {nodes nodes' : Nodes ι} {id : ι}
  (hflatten : ∀ {nodes nodes' id}, flatten nodes id = .ok nodes' → Respliced nodes nodes')

include hflatten

theorem respliced_of_mergeSources (ids : List ι) : ∀ {nodes nodes' : Nodes ι} {pairs : List (ι × ι)},
    mergeSources flatten nodes ids = .ok (nodes', pairs) →
      Respliced nodes nodes' ∧ ∀ pair ∈ pairs, nodes.Has pair := by
  induction ids with
  | nil =>
    intro nodes nodes' pairs h
    cases h
    exact ⟨.refl nodes, nofun⟩
  | cons id ids ih =>
    intro nodes nodes' pairs h
    rw [mergeSources] at h
    cases hcontent : (nodes id).content with
    | mapping =>
      rw [hcontent] at h
      obtain ⟨nodes₁, h₁, h⟩ := bind_eq_ok.mp h
      obtain ⟨⟨nodes₂, later⟩, h₂, h⟩ := bind_eq_ok.mp h
      cases h
      have hfirst := hflatten h₁
      obtain ⟨hrest, hlater⟩ := ih h₂
      refine ⟨hfirst.trans hrest, fun pair hpair => ?_⟩
      rcases List.mem_append.mp hpair with hpair | hpair
      · exact hfirst.pairs pair (hlater pair hpair)
      · exact hfirst.pairs pair ⟨id, hpair⟩
    | scalar | sequence =>
      rw [hcontent] at h
      cases h

theorem respliced_of_mergeValue {value : ι} {pairs : List (ι × ι)}
    (h : mergeValue flatten nodes value = .ok (nodes', pairs)) :
    Respliced nodes nodes' ∧ ∀ pair ∈ pairs, nodes.Has pair := by
  unfold mergeValue at h
  split at h
  · obtain ⟨nodes₁, h₁, h⟩ := bind_eq_ok.mp h
    cases h
    exact ⟨hflatten h₁, fun pair hpair => (hflatten h₁).pairs pair ⟨value, hpair⟩⟩
  · exact respliced_of_mergeSources hflatten _ h
  · cases h

theorem respliced_of_mergeLoop [DecidableEq ι] (n : Nat) : ∀ {nodes nodes' : Nodes ι},
    mergeLoop flatten id n nodes = .ok nodes' → Respliced nodes nodes' := by
  induction n with
  | zero =>
    intro nodes nodes' h
    cases h
    exact .refl nodes
  | succ n ih =>
    intro nodes nodes' h
    rw [mergeLoop] at h
    cases hfirst : firstMerge nodes (nodes.pairs id) with
    | none =>
      rw [hfirst] at h
      cases h
      exact .refl nodes
    | some found =>
      obtain ⟨value, rest⟩ := found
      have hid (text : String) : (nodes id).content ≠ .scalar text := by
        intro hcontent
        rw [Nodes.pairs, hcontent] at hfirst
        cases hfirst
      rw [hfirst] at h
      obtain ⟨⟨nodes₁, merged⟩, h₁, h⟩ := bind_eq_ok.mp h
      obtain ⟨nodes₂, h₂, h⟩ := bind_eq_ok.mp h
      cases h
      have htaken : Respliced nodes (nodes.setPairs id rest) :=
        (Respliced.refl nodes).setPairs hid fun pair hpair => ⟨id, mem_of_firstMerge hfirst pair hpair⟩
      obtain ⟨hvalue, hmerged⟩ := respliced_of_mergeValue hflatten h₁
      have hloop := htaken.trans (hvalue.trans (ih h₂))
      refine hloop.setPairs hid fun pair hpair => ?_
      rcases List.mem_append.mp hpair with hpair | hpair
      · exact htaken.pairs pair (hmerged pair hpair)
      · exact hloop.pairs pair ⟨id, hpair⟩

end

theorem respliced_of_flattenMapping [DecidableEq ι] (stack : Nat) : ∀ {nodes nodes' : Nodes ι} {id : ι},
    flattenMapping stack nodes id = .ok nodes' → Respliced nodes nodes' := by
  induction stack with
  | zero => exact fun h => nomatch h
  | succ stack ih =>
    intro nodes nodes' id h
    obtain ⟨nodes₁, h₁, h⟩ := bind_eq_ok.mp h
    cases h
    exact (respliced_of_mergeLoop ih _ h₁).trans (.retag _ _)

end

end KeelsonDocker.Yaml
