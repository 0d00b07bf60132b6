import KeelsonDocker.PlatformPaths
import KeelsonDocker.Theory.Laying

/-!
# What a segment glob matches

`path_matches` backtracks over the `**` segments of a pattern; what it decides is whether the pattern can
be laid over the path (`pathMatches_iff_laid`).
-/

namespace KeelsonDocker.PlatformPaths

open Laying

/-- `**` covers any run of a path's segments, every other segment one that `fnmatchcase` accepts. -/
def Covers (segment : String) (run : List String) : Prop :=
  segment = "**" ∨ ∃ part, run = [part] ∧ fnmatchcase part segment = true

variable {segment : String} {run path pat : List String}

theorem covers_of_span (h : segment = "**") : Covers segment run := .inl h

theorem covers_iff_of_ne (h : segment ≠ "**") :
    Covers segment run ↔ ∃ part, run = [part] ∧ fnmatchcase part segment = true :=
  or_iff_right h

/-- The split points of `**` are the suffixes of the path. -/
theorem spans_eq_true {matchRest : List String → Bool} :
    spans matchRest path = true ↔ ∃ rest, rest <:+ path ∧ matchRest rest = true := by
  induction path with
  | nil => simp [spans]
  | cons part path ih =>
    rw [spans, Bool.or_eq_true, ih]
    constructor
    · intro h
      rcases h with h | ⟨rest, hrest, h⟩
      · exact ⟨part :: path, List.suffix_rfl, h⟩
      · exact ⟨rest, hrest.trans (List.suffix_cons part path), h⟩
    · intro ⟨rest, hrest, h⟩
      rcases List.suffix_cons_iff.mp hrest with rfl | hrest
      · exact .inl h
      · exact .inr ⟨rest, hrest, h⟩

theorem matchSegments_span (h : segment = "**") :
    matchSegments path (segment :: pat) = spans (fun path => matchSegments path pat) path := by
  cases path with
  | nil => rw [matchSegments, if_pos h]
  | cons part path => rw [matchSegments, if_pos h]

theorem matchSegments_iff_laid : matchSegments path pat = true ↔ Laid Covers pat path := by
  induction pat generalizing path with
  | nil => rw [matchSegments, List.isEmpty_iff, laid_nil]
  | cons segment pat ih =>
    by_cases hspan : segment = "**"
    · rw [matchSegments_span hspan, spans_eq_true, laid_cons_of_any fun _ => covers_of_span hspan]
      simp only [ih]
    · rw [laid_cons_of_one fun _ => covers_iff_of_ne hspan]
      cases path with
      | nil => simp [matchSegments, hspan]
      | cons part path =>
        rw [matchSegments, if_neg hspan, Bool.and_eq_true, ih]
        constructor
        · intro ⟨hpart, hrest⟩
          exact ⟨part, path, rfl, hpart, hrest⟩
        · intro ⟨_, _, heq, hpart, hrest⟩
          cases heq
          exact ⟨hpart, hrest⟩

/-- **A glob matches exactly the paths it can be laid over**; without `**` these have as many segments as
it has. -/
theorem pathMatches_iff_laid (relative pattern : String) :
    (pathMatches relative pattern = true ↔ Laid Covers (allParts pattern) (allParts relative)) ∧
      ("**" ∉ allParts pattern → pathMatches relative pattern = true →
        (allParts relative).length = (allParts pattern).length) := by
  have hiff : pathMatches relative pattern = true ↔ Laid Covers (allParts pattern) (allParts relative) :=
    matchSegments_iff_laid
  refine ⟨hiff, fun hnone hmatch => ?_⟩
  refine (hiff.mp hmatch).length_eq fun segment hmem run hcovers => ?_
  have hne : segment ≠ "**" := by
    intro heq
    exact hnone (heq ▸ hmem)
  obtain ⟨part, rfl, _⟩ := (covers_iff_of_ne hne).mp hcovers
  rfl

/-- One file of an entity, matched by a pattern of three segments. -/
theorem pathMatches_iff_laid_entity :
    (allParts "platforms/sealog-9/a.yml").length = (allParts "platforms/*/*.yml").length :=
  (pathMatches_iff_laid "platforms/sealog-9/a.yml" "platforms/*/*.yml").2 (by decide) (by decide)

end KeelsonDocker.PlatformPaths
