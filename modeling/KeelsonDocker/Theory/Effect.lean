import Mathlib.Data.List.Basic

/-!
# Procedures that may raise and leave a state behind

`EStateM ε σ`, where a raised exception keeps the state reached. `after` is that state; `Adds` says
what a run appends to a list the state carries, such as a trace of calls, and composes along `>>=` and
along handlers that only rename the exception.
-/

namespace Effect

universe u v

/-! ### Sequences of fallible steps -/

section

variable {ε : Type v} {α β : Type u}

theorem bind_eq_ok {x : Except ε α} {f : α → Except ε β} {b : β} :
    (x >>= f) = .ok b ↔ ∃ a, x = .ok a ∧ f a = .ok b := by
  cases x with
  | error e => exact ⟨nofun, fun ⟨_, h, _⟩ => nomatch h⟩
  | ok a => exact ⟨fun h => ⟨a, rfl, h⟩, fun ⟨_, h, h'⟩ => by cases h; exact h'⟩

theorem bind_eq_error {x : Except ε α} {f : α → Except ε β} {e : ε} :
    (x >>= f) = .error e ↔ x = .error e ∨ ∃ a, x = .ok a ∧ f a = .error e := by
  cases x with
  | error e' => exact ⟨fun h => .inl (by cases h; rfl), by rintro (h | ⟨_, h, _⟩) <;> cases h; rfl⟩
  | ok a =>
    refine ⟨fun h => .inr ⟨a, rfl, h⟩, ?_⟩
    rintro (h | ⟨_, h, h'⟩) <;> cases h
    exact h'

theorem map_eq_ok {x : Except ε α} {f : α → β} {b : β} :
    f <$> x = .ok b ↔ ∃ a, x = .ok a ∧ f a = b := by
  cases x with
  | error e => exact ⟨nofun, fun ⟨_, h, _⟩ => nomatch h⟩
  | ok a => exact ⟨fun h => ⟨a, rfl, by cases h; rfl⟩, fun ⟨_, h, h'⟩ => by cases h; rw [← h']; rfl⟩

theorem exists_of_mapM_eq_ok {f : α → Except ε β} {xs : List α} {ys : List β}
    (h : xs.mapM f = .ok ys) : ∀ y ∈ ys, ∃ x ∈ xs, f x = .ok y := by
  induction xs generalizing ys with
  | nil =>
    cases h
    exact nofun
  | cons x xs ih =>
    rw [List.mapM_cons] at h
    obtain ⟨y, hy, h⟩ := bind_eq_ok.mp h
    obtain ⟨ys', hys, h⟩ := bind_eq_ok.mp h
    cases h
    intro z hz
    rcases List.mem_cons.mp hz with rfl | hz
    · exact ⟨x, List.mem_cons_self, hy⟩
    · obtain ⟨x', hx', hz⟩ := ih hys z hz
      exact ⟨x', List.mem_cons_of_mem x hx', hz⟩

theorem map_of_mapM_eq_ok {γ : Type u} {f : α → Except ε β} {g : β → γ} {k : α → γ} {xs : List α}
    {ys : List β} (h : xs.mapM f = .ok ys) (hg : ∀ x y, f x = .ok y → g y = k x) :
    ys.map g = xs.map k := by
  induction xs generalizing ys with
  | nil =>
    cases h
    rfl
  | cons x xs ih =>
    rw [List.mapM_cons] at h
    obtain ⟨y, hy, h⟩ := bind_eq_ok.mp h
    obtain ⟨ys', hys, h⟩ := bind_eq_ok.mp h
    cases h
    rw [List.map_cons, List.map_cons, hg x y hy, ih hys]

theorem exists_mapM_of_forall {γ : Type u} {f : α → Except ε β} {g : α → Except ε γ} {xs : List α}
    {ys : List β} (h : xs.mapM f = .ok ys) (hg : ∀ x y, f x = .ok y → ∃ z, g x = .ok z) :
    ∃ zs, xs.mapM g = .ok zs := by
  induction xs generalizing ys with
  | nil => exact ⟨[], rfl⟩
  | cons x xs ih =>
    rw [List.mapM_cons] at h
    obtain ⟨y, hy, h⟩ := bind_eq_ok.mp h
    obtain ⟨ys', hys, -⟩ := bind_eq_ok.mp h
    obtain ⟨z, hz⟩ := hg x y hy
    obtain ⟨zs, hzs⟩ := ih hys
    refine ⟨z :: zs, ?_⟩
    rw [List.mapM_cons]
    exact bind_eq_ok.mpr ⟨z, hz, bind_eq_ok.mpr ⟨zs, hzs, rfl⟩⟩

/-- What must hold for a step to end in `Q`, or in an exception that `E` allows. -/
def wp (E : ε → Prop) (x : Except ε α) (Q : α → Prop) : Prop :=
  match x with
  | .ok a => Q a
  | .error e => E e

section

variable {E : ε → Prop} {Q : β → Prop}

@[simp] theorem wp_ok {a : β} : wp E (.ok a) Q ↔ Q a := .rfl

@[simp] theorem wp_error {e : ε} : wp E (.error e) Q ↔ E e := .rfl

@[simp] theorem wp_pure {a : β} : wp E (pure a) Q ↔ Q a := .rfl

@[simp] theorem wp_bind {x : Except ε α} {f : α → Except ε β} :
    wp E (x >>= f) Q ↔ wp E x fun a => wp E (f a) Q := by
  cases x with
  | ok a => exact .rfl
  | error e => exact .rfl

theorem wp_ite {p : Prop} [Decidable p] {x y : Except ε β} :
    wp E (if p then x else y) Q ↔ if p then wp E x Q else wp E y Q := by
  split <;> exact .rfl

theorem wp_true {x : Except ε β} : wp (fun _ => True) x fun _ => True := by
  cases x <;> trivial

end

end

/-! ### States left behind -/

variable {ε σ τ α β : Type u}

/-- The state a run leaves, whether it returns or raises. -/
def after (x : EStateM ε σ α) (s : σ) : σ :=
  match x s with
  | .ok _ s' => s'
  | .error _ s' => s'

theorem after_ok {x : EStateM ε σ α} {a : α} {s s' : σ} (h : x s = .ok a s') : after x s = s' := by
  rw [after, h]

theorem after_error {x : EStateM ε σ α} {e : ε} {s s' : σ} (h : x s = .error e s') :
    after x s = s' := by
  rw [after, h]

/-! ### Running the combinators -/

@[simp] theorem run_pure (a : α) (s : σ) : (pure a : EStateM ε σ α) s = .ok a s := rfl

@[simp] theorem run_throw (e : ε) (s : σ) : (throw e : EStateM ε σ α) s = .error e s := rfl

@[simp] theorem run_get (s : σ) : (get : EStateM ε σ σ) s = .ok s s := rfl

@[simp] theorem run_modify (f : σ → σ) (s : σ) :
    (modify f : EStateM ε σ PUnit) s = .ok ⟨⟩ (f s) := rfl

theorem run_bind_ok {x : EStateM ε σ α} {f : α → EStateM ε σ β} {a : α} {s s' : σ}
    (h : x s = .ok a s') : (x >>= f) s = f a s' := by
  show EStateM.bind x f s = _
  rw [EStateM.bind, h]

theorem run_bind_error {x : EStateM ε σ α} {f : α → EStateM ε σ β} {e : ε} {s s' : σ}
    (h : x s = .error e s') : (x >>= f) s = .error e s' := by
  show EStateM.bind x f s = _
  rw [EStateM.bind, h]

theorem run_tryCatch_ok {x : EStateM ε σ α} {f : ε → EStateM ε σ α} {a : α} {s s' : σ}
    (h : x s = .ok a s') : (tryCatch x f) s = .ok a s' := by
  show EStateM.tryCatch x f s = _
  rw [EStateM.tryCatch, h]

theorem run_tryCatch_error {x : EStateM ε σ α} {f : ε → EStateM ε σ α} {e : ε} {s s' : σ}
    (h : x s = .error e s') : (tryCatch x f) s = f e s' := by
  show EStateM.tryCatch x f s = _
  rw [EStateM.tryCatch, h]
  rfl

/-- A sequence returns exactly when both of its parts do. -/
theorem run_bind_eq_ok {x : EStateM ε σ α} {f : α → EStateM ε σ β} {b : β} {s s'' : σ} :
    (x >>= f) s = .ok b s'' ↔ ∃ a s', x s = .ok a s' ∧ f a s' = .ok b s'' := by
  cases h : x s with
  | ok a s' =>
    rw [run_bind_ok h]
    exact ⟨fun hf => ⟨a, s', rfl, hf⟩, fun ⟨_, _, ha, hf⟩ => by cases ha; exact hf⟩
  | error e s' =>
    rw [run_bind_error h]
    exact ⟨nofun, fun ⟨_, _, ha, _⟩ => nomatch ha⟩

theorem run_tryCatch_eq_ok {x : EStateM ε σ α} {f : ε → EStateM ε σ α} {a : α} {s s' : σ}
    (hf : ∀ e s, f e s ≠ .ok a s') : (tryCatch x f) s = .ok a s' ↔ x s = .ok a s' := by
  cases h : x s with
  | ok b s'' => rw [run_tryCatch_ok h]
  | error e s'' =>
    rw [run_tryCatch_error h]
    exact ⟨fun h' => absurd h' (hf e s''), nofun⟩

/-! ### What a run leaves -/

theorem after_bind_ok {x : EStateM ε σ α} {f : α → EStateM ε σ β} {a : α} {s s' : σ}
    (h : x s = .ok a s') : after (x >>= f) s = after (f a) s' := by
  rw [after, run_bind_ok h, after]

theorem after_bind_error {x : EStateM ε σ α} {f : α → EStateM ε σ β} {e : ε} {s s' : σ}
    (h : x s = .error e s') : after (x >>= f) s = s' :=
  after_error (run_bind_error h)

/-- A handler that changes no state in view leaves what its body left in view. -/
theorem view_after_tryCatch {view : σ → β} {x : EStateM ε σ α} {f : ε → EStateM ε σ α}
    (hf : ∀ e s, view (after (f e) s) = view s) (s : σ) :
    view (after (tryCatch x f) s) = view (after x s) := by
  cases h : x s with
  | ok a s' => rw [after_ok h, after_ok (run_tryCatch_ok h)]
  | error e s' => rw [after_error h, after, run_tryCatch_error h, ← hf e s', after]

/-! ### What a run appends -/

/-- From `s`, the procedure appends exactly `l` to the list in view. -/
def Adds (view : σ → List τ) (x : EStateM ε σ α) (s : σ) (l : List τ) : Prop :=
  view (after x s) = view s ++ l

namespace Adds

variable {view : σ → List τ} {x : EStateM ε σ α} {f : α → EStateM ε σ β} {s s' : σ} {l l' : List τ}

theorem pure (a : α) : Adds view (Pure.pure a : EStateM ε σ α) s [] := by
  simp [Adds, after]

theorem throw (e : ε) : Adds view (MonadExcept.throw e : EStateM ε σ α) s [] := by
  simp [Adds, after]

theorem bind_ok {a : α} (h : x s = .ok a s') (hx : Adds view x s l)
    (hf : Adds view (f a) s' l') : Adds view (x >>= f) s (l ++ l') := by
  rw [Adds, after_ok h] at hx
  rw [Adds, after_bind_ok h, hf, hx, List.append_assoc]

theorem bind_error {e : ε} (h : x s = .error e s') (hx : Adds view x s l) :
    Adds view (x >>= f) s l := by
  rw [Adds, after_error h] at hx
  rw [Adds, after_bind_error h, hx]

/-- A step that appends nothing leaves what the step before it has appended. -/
theorem then_nothing (hx : Adds view x s l) (hf : ∀ a s, Adds view (f a) s []) :
    Adds view (x >>= f) s l := by
  cases h : x s with
  | ok a s' => simpa using hx.bind_ok h (hf a s')
  | error e s' => exact hx.bind_error h

theorem tryCatch {g : ε → EStateM ε σ α} (hg : ∀ e s, view (after (g e) s) = view s)
    (hx : Adds view x s l) : Adds view (tryCatch x g) s l := by
  rw [Adds, view_after_tryCatch hg, hx]

end Adds

/-- From any state, the procedure appends to the list in view, and only what satisfies `P`. -/
def Appends (view : σ → List τ) (P : τ → Prop) (x : EStateM ε σ α) : Prop :=
  ∀ s, ∃ l, Adds view x s l ∧ ∀ e ∈ l, P e

namespace Appends

variable {view : σ → List τ} {P : τ → Prop} {x : EStateM ε σ α} {f : α → EStateM ε σ β}

theorem nothing (h : ∀ s, view (after x s) = view s) : Appends view P x :=
  fun s => ⟨[], by simp [Adds, h], by simp⟩

theorem pure (a : α) : Appends view P (Pure.pure a : EStateM ε σ α) :=
  fun _ => ⟨[], .pure a, by simp⟩

theorem throw (e : ε) : Appends view P (MonadExcept.throw e : EStateM ε σ α) :=
  fun _ => ⟨[], .throw e, by simp⟩

/-- What the second part appends may depend on how the first one came to its result. -/
theorem bind (hx : Appends view P x)
    (hf : ∀ a s s', x s = .ok a s' → Appends view P (f a)) : Appends view P (x >>= f) := by
  intro s
  obtain ⟨l, hl, hP⟩ := hx s
  cases h : x s with
  | error e s' => exact ⟨l, hl.bind_error h, hP⟩
  | ok a s' =>
    obtain ⟨l', hl', hP'⟩ := hf a s s' h s'
    refine ⟨l ++ l', hl.bind_ok h hl', fun e he => ?_⟩
    exact (List.mem_append.mp he).elim (hP e) (hP' e)

theorem tryCatch {g : ε → EStateM ε σ α} (hg : ∀ e, Appends view P (g e))
    (hx : Appends view P x) : Appends view P (tryCatch x g) := by
  intro s
  obtain ⟨l, hl, hP⟩ := hx s
  cases h : x s with
  | ok a s' =>
    refine ⟨l, ?_, hP⟩
    rw [Adds, after_ok (run_tryCatch_ok h), ← after_ok h, hl]
  | error e s' =>
    obtain ⟨l', hl', hP'⟩ := hg e s'
    refine ⟨l ++ l', ?_, fun e he => (List.mem_append.mp he).elim (hP e) (hP' e)⟩
    rw [Adds, after_error h] at hl
    rw [Adds, after, run_tryCatch_error h, ← after, hl', hl, List.append_assoc]

theorem ite {p : Prop} [Decidable p] {y : EStateM ε σ α} (hx : Appends view P x)
    (hy : Appends view P y) : Appends view P (if p then x else y) := by
  split
  · exact hx
  · exact hy

/-- From an empty list, everything in view is what was appended. -/
theorem of_nil (hx : Appends view P x) {s : σ} (hs : view s = []) : ∀ e ∈ view (after x s), P e := by
  obtain ⟨l, hl, hP⟩ := hx s
  rw [hl, hs]
  exact hP

end Appends

/-! ### Runs that append one thing, or nothing -/

/-- Nothing is appended to the list in view. -/
abbrev Silent (view : σ → List τ) (x : EStateM ε σ α) : Prop := Appends view (fun _ => False) x

/-- One thing is appended to the list in view by a run that returns, and nothing by one that raises. -/
structure Once (view : σ → List τ) (x : EStateM ε σ α) : Prop where
  ok : ∀ {s a s'}, x s = .ok a s' → ∃ e, view s' = view s ++ [e]
  error : ∀ {s e s'}, x s = .error e s' → view s' = view s

section

variable {view : σ → List τ} {x : EStateM ε σ α} {f : α → EStateM ε σ β} {s s' : σ} {a : α}

theorem Silent.view_after (h : Silent view x) (s : σ) : view (after x s) = view s := by
  obtain ⟨l, hl, hnone⟩ := h s
  rw [hl, List.eq_nil_iff_forall_not_mem.mpr hnone, List.append_nil]

theorem Silent.view_ok (h : Silent view x) (hx : x s = .ok a s') : view s' = view s := by
  rw [← after_ok hx, h.view_after]

theorem Silent.view_error {e : ε} (h : Silent view x) (hx : x s = .error e s') : view s' = view s := by
  rw [← after_error hx, h.view_after]

theorem Silent.adds (h : Silent view x) (s : σ) : Adds view x s [] := by
  rw [Adds, h.view_after, List.append_nil]

theorem Adds.then_silent {l : List τ} (hx : Adds view x s l) (hf : ∀ a, Silent view (f a)) :
    Adds view (x >>= f) s l :=
  hx.then_nothing fun a => (hf a).adds

theorem Silent.mapM {f : α → EStateM ε σ β} (h : ∀ a, Silent view (f a)) (as : List α) :
    Silent view (as.mapM f) := by
  induction as with
  | nil => exact .pure []
  | cons a as ih =>
    rw [List.mapM_cons]
    exact .bind (h a) fun _ _ _ _ => .bind ih fun _ _ _ _ => .pure _

namespace Once

theorem throw (e : ε) : Once view (MonadExcept.throw e : EStateM ε σ α) :=
  ⟨nofun, fun h => by cases h; rfl⟩

/-- First what appends nothing, then what appends one thing. -/
theorem bind (hx : Silent view x) (hf : ∀ a, Once view (f a)) : Once view (x >>= f) where
  ok {s b s''} h := by
    obtain ⟨a, s', ha, hb⟩ := run_bind_eq_ok.mp h
    rw [← hx.view_ok ha]
    exact (hf a).ok hb
  error {s e s''} h := by
    cases hxs : x s with
    | ok a s' =>
      rw [run_bind_ok hxs] at h
      rw [← hx.view_ok hxs]
      exact (hf a).error h
    | error e' s' =>
      rw [run_bind_error hxs] at h
      cases h
      exact hx.view_error hxs

theorem ite {p : Prop} [Decidable p] {y : EStateM ε σ α} (hx : Once view x) (hy : Once view y) :
    Once view (if p then x else y) := by
  split
  · exact hx
  · exact hy

/-- A handler is reached only where nothing has been appended. -/
theorem tryCatch {g : ε → EStateM ε σ α} (hg : ∀ e, Once view (g e)) (hx : Once view x) :
    Once view (tryCatch x g) where
  ok {s a s'} h := by
    cases hxs : x s with
    | ok b s'' =>
      rw [run_tryCatch_ok hxs] at h
      cases h
      exact hx.ok hxs
    | error e s'' =>
      rw [run_tryCatch_error hxs] at h
      rw [← hx.error hxs]
      exact (hg e).ok h
  error {s e s'} h := by
    cases hxs : x s with
    | ok b s'' =>
      rw [run_tryCatch_ok hxs] at h
      cases h
    | error e' s'' =>
      rw [run_tryCatch_error hxs] at h
      rw [← hx.error hxs]
      exact (hg e').error h

end Once

end

/-! ### What a run raises -/

/-- Whatever the procedure raises satisfies `P`. -/
def Raises (P : ε → Prop) (x : EStateM ε σ α) : Prop := ∀ ⦃s e s'⦄, x s = .error e s' → P e

namespace Raises

variable {P : ε → Prop} {x : EStateM ε σ α} {f : α → EStateM ε σ β}

theorem pure (a : α) : Raises P (Pure.pure a : EStateM ε σ α) := nofun

theorem throw {e : ε} (h : P e) : Raises P (MonadExcept.throw e : EStateM ε σ α) := by
  intro s e' s' hx
  cases hx
  exact h

theorem bind (hx : Raises P x) (hf : ∀ s a s', x s = .ok a s' → Raises P (f a)) :
    Raises P (x >>= f) := by
  intro s e s'' h
  cases hxs : x s with
  | ok a s' =>
    rw [run_bind_ok hxs] at h
    exact hf s a s' hxs h
  | error e' s' =>
    rw [run_bind_error hxs] at h
    cases h
    exact hx hxs

end Raises

end Effect
