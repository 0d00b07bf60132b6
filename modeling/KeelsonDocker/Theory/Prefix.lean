import Mathlib.Data.List.TakeWhile

/-!
# Codes that can be told apart in a row

A code is prefix-free if what it writes can be split off the front of any longer list, so that things
written one after the other can be read back (`Free.flatMap_injective`). Where every block begins with
an element that occurs nowhere else, the blocks can be told apart as well (`map_eq_of_flatMap_eq`).
-/

namespace Prefix

universe u v

variable {α β : Type u} {γ : Type v}

def Free (f : α → List γ) : Prop := ∀ ⦃a b x y⦄, f a ++ x = f b ++ y → a = b ∧ x = y

/-- Reading back what was written, and nothing more, is enough. -/
theorem Free.of_read {f : α → List γ} {read : List γ → Option (α × List γ)}
    (h : ∀ a x, read (f a ++ x) = some (a, x)) : Free f := by
  intro a b x y hxy
  have hread : some (a, x) = some (b, y) := by rw [← h a x, hxy, h b y]
  cases hread
  exact ⟨rfl, rfl⟩

variable {f : α → List γ}

theorem Free.injective (h : Free f) : Function.Injective f := by
  intro a b hab
  exact (h (x := []) (y := []) (by rw [hab])).1

/-- A code after another, which may depend on what came first. -/
theorem Free.append {g : α → β → List γ} (hf : Free f) (hg : ∀ a, Free (g a)) :
    Free fun p : α × β => f p.1 ++ g p.1 p.2 := by
  intro ⟨a, b⟩ ⟨a', b'⟩ x y h
  simp only [List.append_assoc] at h
  obtain ⟨rfl, h⟩ := hf h
  obtain ⟨rfl, rfl⟩ := hg a h
  exact ⟨rfl, rfl⟩

theorem Free.flatMap_injective (h : Free f) (hne : ∀ a, f a ≠ []) :
    Function.Injective fun l : List α => l.flatMap f := by
  intro l
  induction l with
  | nil =>
    intro l' hl
    cases l' with
    | nil => rfl
    | cons b l' => exact absurd (List.append_eq_nil_iff.mp hl.symm).1 (hne b)
  | cons a l ih =>
    intro l' hl
    cases l' with
    | nil => exact absurd (List.append_eq_nil_iff.mp hl).1 (hne a)
    | cons b l' =>
      obtain ⟨rfl, hrest⟩ := h hl
      rw [ih hrest]

/-! ### Blocks -/

/-- The list begins with an element that `p` marks, and has no other. -/
def Marked (p : γ → Bool) (l : List γ) : Prop :=
  ∃ x rest, l = x :: rest ∧ p x = true ∧ ∀ y ∈ rest, p y = false

theorem takeWhile_append {p : γ → Bool} {rest tail : List γ} (hrest : ∀ y ∈ rest, p y = false)
    (htail : ∀ y ∈ tail.head?, p y = true) : (rest ++ tail).takeWhile (!p ·) = rest := by
  rw [List.takeWhile_append_of_pos (by simpa using hrest)]
  cases tail with
  | nil => simp
  | cons y tail => simp [htail y rfl]

theorem head_flatMap {p : γ → Bool} {l : List α} (h : ∀ a ∈ l, Marked p (f a)) :
    ∀ y ∈ (l.flatMap f).head?, p y = true := by
  cases l with
  | nil => exact nofun
  | cons a l =>
    obtain ⟨x, rest, ha, hx, _⟩ := h a List.mem_cons_self
    intro y hy
    rw [List.flatMap_cons, ha] at hy
    cases hy
    exact hx

/-- Where one block ends the next mark begins. -/
theorem map_eq_of_flatMap_eq {p : γ → Bool} {l l' : List α} (h : ∀ a ∈ l, Marked p (f a))
    (h' : ∀ a ∈ l', Marked p (f a)) (heq : l.flatMap f = l'.flatMap f) : l.map f = l'.map f := by
  induction l generalizing l' with
  | nil =>
    cases l' with
    | nil => rfl
    | cons b l' =>
      obtain ⟨x, rest, hb, _⟩ := h' b List.mem_cons_self
      rw [List.flatMap_cons, hb] at heq
      cases heq
  | cons a l ih =>
    obtain ⟨x, rest, ha, _, hrest⟩ := h a List.mem_cons_self
    have hl : ∀ a ∈ l, Marked p (f a) := fun c hc => h c (List.mem_cons_of_mem a hc)
    cases l' with
    | nil =>
      rw [List.flatMap_cons, ha] at heq
      cases heq
    | cons b l' =>
      obtain ⟨x', rest', hb, _, hrest'⟩ := h' b List.mem_cons_self
      have hl' : ∀ a ∈ l', Marked p (f a) := fun c hc => h' c (List.mem_cons_of_mem b hc)
      rw [List.flatMap_cons, List.flatMap_cons, ha, hb, List.cons_append, List.cons_append,
        List.cons.injEq] at heq
      obtain ⟨rfl, heq⟩ := heq
      have hrests : rest = rest' := by
        rw [← takeWhile_append hrest (head_flatMap hl), heq, takeWhile_append hrest' (head_flatMap hl')]
      subst hrests
      rw [List.map_cons, List.map_cons, ha, hb, ih hl hl' (List.append_cancel_left heq)]

end Prefix
