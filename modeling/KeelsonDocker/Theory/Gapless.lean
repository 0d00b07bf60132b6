import Mathlib.Data.List.Infix

/-!
# Deliveries without gaps

Numbered items are delivered one after the other, possibly more than once and among other things; `is i c`
says that the delivery `c` is the item `i`. A list of deliveries is gapless from `b` on if each item comes
after all items between `b` and itself.
-/

namespace Gapless

variable {γ : Type} {is : Nat → γ → Prop} {b n j : Nat} {l l' : List γ} {c : γ}

/-- Every item from `b` up to `n` is among the deliveries. -/
def Covered (is : Nat → γ → Prop) (b n : Nat) (l : List γ) : Prop :=
  ∀ i, b ≤ i → i < n → ∃ c ∈ l, is i c

theorem Covered.mono (h : Covered is b n l) (hl : l ⊆ l') : Covered is b n l' := by
  intro i hb hn
  obtain ⟨c, hc, hi⟩ := h i hb hn
  exact ⟨c, hl hc, hi⟩

/-- Whatever item is delivered, the items before it from `b` on have been delivered before. -/
def NoGap (is : Nat → γ → Prop) (b : Nat) (l : List γ) : Prop :=
  ∀ before c, before ++ [c] <+: l → ∀ j, is j c → Covered is b j before

theorem NoGap.nil : NoGap is b [] := by
  intro before c h
  have hlen := h.length_le
  simp at hlen

theorem NoGap.concat (h : NoGap is b l) (hc : ∀ j, is j c → Covered is b j l) :
    NoGap is b (l ++ [c]) := by
  intro before d hd j hj
  rcases (List.prefix_concat_iff).mp hd with heq | hpre
  · obtain ⟨rfl, hcd⟩ := List.append_inj' heq rfl
    cases hcd
    exact hc j hj
  · exact h before d hpre j hj

end Gapless
