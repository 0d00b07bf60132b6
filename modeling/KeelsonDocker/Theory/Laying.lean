import Mathlib.Data.List.Flatten
import Mathlib.Data.List.Forall2

/-!
# Laying a pattern over a list

The segments of a pattern are laid over a list in order: each covers a run of consecutive elements, and
nothing is left over. What a segment covers is a parameter.
-/

namespace Laying

universe u v

variable {α : Type u} {β : Type v}

/-- The list cut into runs, one for each segment of the pattern. -/
def Laid (covers : β → List α → Prop) (pat : List β) (l : List α) : Prop :=
  ∃ runs : List (List α), runs.flatten = l ∧ List.Forall₂ covers pat runs

variable {covers : β → List α → Prop} {b : β} {pat : List β} {l : List α}

theorem laid_nil : Laid covers [] l ↔ l = [] := by
  constructor
  · intro ⟨runs, hruns, h⟩
    cases h
    exact hruns.symm
  · intro h
    exact ⟨[], h.symm, .nil⟩

theorem laid_cons : Laid covers (b :: pat) l ↔
    ∃ run rest, l = run ++ rest ∧ covers b run ∧ Laid covers pat rest := by
  constructor
  · intro ⟨runs, hruns, h⟩
    cases h with
    | @cons _ run _ runs hb hrest =>
      exact ⟨run, runs.flatten, by rw [← hruns, List.flatten_cons], hb, runs, rfl, hrest⟩
  · intro ⟨run, rest, hl, hb, runs, hruns, hrest⟩
    exact ⟨run :: runs, by rw [List.flatten_cons, hruns, hl], .cons hb hrest⟩

/-- A segment that covers single elements covers the first one. -/
theorem laid_cons_of_one {fits : α → Prop} (h : ∀ run, covers b run ↔ ∃ a, run = [a] ∧ fits a) :
    Laid covers (b :: pat) l ↔ ∃ a rest, l = a :: rest ∧ fits a ∧ Laid covers pat rest := by
  rw [laid_cons]
  constructor
  · intro ⟨run, rest, hl, hb, hrest⟩
    obtain ⟨a, rfl, ha⟩ := (h run).mp hb
    exact ⟨a, rest, hl, ha, hrest⟩
  · intro ⟨a, rest, hl, ha, hrest⟩
    exact ⟨[a], rest, hl, (h [a]).mpr ⟨a, rfl, ha⟩, hrest⟩

/-- A segment that covers whatever there is leaves a suffix to the others. -/
theorem laid_cons_of_any (h : ∀ run, covers b run) :
    Laid covers (b :: pat) l ↔ ∃ rest, rest <:+ l ∧ Laid covers pat rest := by
  rw [laid_cons]
  constructor
  · intro ⟨run, rest, hl, _, hrest⟩
    exact ⟨rest, ⟨run, hl.symm⟩, hrest⟩
  · intro ⟨rest, ⟨run, hl⟩, hrest⟩
    exact ⟨run, rest, hl.symm, h run, hrest⟩

theorem Laid.length_eq (h : Laid covers pat l)
    (hone : ∀ b ∈ pat, ∀ run, covers b run → run.length = 1) : l.length = pat.length := by
  induction pat generalizing l with
  | nil => simp [laid_nil.mp h]
  | cons b pat ih =>
    obtain ⟨run, rest, rfl, hb, hrest⟩ := laid_cons.mp h
    have hrun := hone b List.mem_cons_self run hb
    have hlen := ih hrest fun b' hb' => hone b' (List.mem_cons_of_mem b hb')
    rw [List.length_append, List.length_cons, hrun, hlen, Nat.add_comm]

end Laying
