import Mathlib.Data.List.Basic
import Mathlib.Data.List.Range

/-!
# Feeds that repeat a value when it changes or grows old

The history of a feed is the list of the items sent. A value is wanted when it is not the last one sent,
or when the last item is at least `period` old; what is sent is numbered by its position and marked by
whether it changed. `History` is every list such a feed can have sent.
-/

namespace Feed

variable {α τ : Type}

structure Item (α τ : Type) where
  value : α
  time : τ
  sequence : Nat
  change : Bool

/-- The last value sent. -/
def latest (items : List (Item α τ)) : Option α := items.getLast?.map Item.value

/-- The value differs from the last one sent, or that one was sent `period` or longer ago. -/
def Wants [LE τ] [Sub τ] (period : τ) (items : List (Item α τ)) (value : α) (now : τ) : Prop :=
  latest items ≠ some value ∨ ∃ item ∈ items.getLast?, period ≤ now - item.time

variable [DecidableEq α]

def send (items : List (Item α τ)) (value : α) (now : τ) : List (Item α τ) :=
  items ++ [⟨value, now, items.length, decide (latest items ≠ some value)⟩]

/-- The lists of items a feed of some period has sent. -/
inductive History [LE τ] [Sub τ] (period : τ) : List (Item α τ) → Prop
  | nil : History period []
  | send : History period items → Wants period items value now →
    History period (send items value now)

@[simp] theorem latest_send (items : List (Item α τ)) (value : α) (now : τ) :
    latest (send items value now) = some value := by
  simp [latest, send]

@[simp] theorem getLast?_send (items : List (Item α τ)) (value : α) (now : τ) :
    (send items value now).getLast? =
      some ⟨value, now, items.length, decide (latest items ≠ some value)⟩ := by
  simp [send]

@[simp] theorem length_send (items : List (Item α τ)) (value : α) (now : τ) :
    (send items value now).length = items.length + 1 := by
  simp [send]

namespace History

variable [LE τ] [Sub τ] {period : τ} {items : List (Item α τ)}

/-- The sequence numbers are 0, 1, 2 and so on. -/
theorem sequence (h : History period items) :
    items.map Item.sequence = List.range items.length := by
  induction h with
  | nil => rfl
  | send _ _ ih => simp [Feed.send, ih, List.range_succ]

/-- An item is marked as a change exactly when nothing precedes it or the item before it has another
value. -/
theorem change (h : History period items) (i : Nat) (hi : i < items.length) :
    items[i].change = true ↔ latest (items.take i) ≠ some items[i].value := by
  induction h with
  | nil => cases hi
  | @send items value now _ _ ih =>
    unfold Feed.send at hi ⊢
    by_cases hlt : i < items.length
    · simpa [List.getElem_append_left hlt, List.take_append_of_le_length hlt.le] using ih hlt
    · have hlen : i = items.length := by
        rw [List.length_append] at hi
        simp at hi
        omega
      subst hlen
      simp

end History

end Feed
