import KeelsonDocker.Theory.Effect

/-!
# Procedures that keep to a tour

A tour goes through a structure and notes what it passes; it cannot fail. A procedure keeps to it if it
raises what is wrong with the first thing passed with which anything is wrong, and returns where the
tour ends if nothing is. `KeepsTo` composes along `>>=`, so that what a procedure raises is read off a
tour of what it works on. What is met on a tour as long as all is in order may be told in two ways;
`Agrees` says that they come to the same.
-/

namespace Effect

universe u

variable {ε σ α β π V : Type u}

/-- Where a tour leads, and what it passes. -/
abbrev Tour (π V : Type u) := π → π × List V

namespace Tour

def stay : Tour π V := fun p => (p, [])

def move (f : π → π) : Tour π V := fun p => (f p, [])

def note (v : π → V) : Tour π V := fun p => (p, [v p])

/-- The way may depend on where one is. -/
def seeing (y : π → Tour π V) : Tour π V := fun p => y p p

def andThen (y z : Tour π V) : Tour π V := fun p => ((z (y p).1).1, (y p).2 ++ (z (y p).1).2)

def each (y : α → Tour π V) : List α → Tour π V
  | [] => stay
  | a :: as => (y a).andThen (each y as)

theorem andThen_assoc (y z w : Tour π V) : (y.andThen z).andThen w = y.andThen (z.andThen w) := by
  funext p
  simp [andThen]

end Tour

/-- From `s`, the procedure raises the first thing that is wrong on the tour. If nothing is, it returns
where the tour ends. -/
def KeepsTo (view : σ → π) (wrong : V → Option ε) (x : EStateM ε σ α) (y : Tour π V)
    (Q : α → σ → Prop) (s : σ) : Prop :=
  match (y (view s)).2.findSome? wrong with
  | some e => ∃ s', x s = .error e s'
  | none => ∃ a s', x s = .ok a s' ∧ view s' = (y (view s)).1 ∧ Q a s'

namespace KeepsTo

variable {view : σ → π} {wrong : V → Option ε} {x : EStateM ε σ α} {f : α → EStateM ε σ β}
  {y z : Tour π V} {Q Q' : α → σ → Prop} {R : β → σ → Prop} {s s' : σ} {a : α}

theorem raises {e : ε} (hx : KeepsTo view wrong x y Q s) (hy : (y (view s)).2.findSome? wrong = some e) :
    ∃ s', x s = .error e s' := by
  unfold KeepsTo at hx
  rw [hy] at hx
  exact hx

theorem returns (hx : KeepsTo view wrong x y Q s) (hy : (y (view s)).2.findSome? wrong = none) :
    ∃ a s', x s = .ok a s' ∧ view s' = (y (view s)).1 ∧ Q a s' := by
  unfold KeepsTo at hx
  rw [hy] at hx
  exact hx

protected theorem pure (h : Q a s) : KeepsTo view wrong (Pure.pure a) .stay Q s :=
  ⟨a, s, rfl, rfl, h⟩

/-- A step of which the tour only sees where it leads. -/
theorem move {g : π → π} {t : σ} (hx : x s = .ok a t) (hview : view t = g (view s)) (h : Q a t) :
    KeepsTo view wrong x (.move g) Q s :=
  ⟨a, t, hx, hview, h⟩

/-- Only what the procedure does from `s` matters. -/
theorem congr {x' : EStateM ε σ α} (h : x s = x' s) (hx : KeepsTo view wrong x' y Q s) :
    KeepsTo view wrong x y Q s := by
  unfold KeepsTo
  rw [h]
  exact hx

/-- Only where the tour leads from the view of `s` matters. -/
theorem along {y' : Tour π V} (h : y (view s) = y' (view s)) (hx : KeepsTo view wrong x y' Q s) :
    KeepsTo view wrong x y Q s := by
  unfold KeepsTo
  rw [h]
  exact hx

theorem mono (hx : KeepsTo view wrong x y Q s) (h : ∀ a s', Q a s' → Q' a s') :
    KeepsTo view wrong x y Q' s := by
  unfold KeepsTo at hx ⊢
  split at hx
  · exact hx
  · obtain ⟨a, s', hok, hview, ha⟩ := hx
    exact ⟨a, s', hok, hview, h a s' ha⟩

protected theorem bind (hx : KeepsTo view wrong x y Q s)
    (hf : ∀ a s', Q a s' → KeepsTo view wrong (f a) z R s') :
    KeepsTo view wrong (x >>= f) (y.andThen z) R s := by
  unfold KeepsTo
  rw [Tour.andThen, List.findSome?_append]
  cases hy : (y (view s)).2.findSome? wrong with
  | some e =>
    obtain ⟨s', hs'⟩ := hx.raises hy
    exact ⟨s', run_bind_error hs'⟩
  | none =>
    obtain ⟨a, s', hs', hview, ha⟩ := hx.returns hy
    rw [run_bind_ok hs', ← hview]
    exact hf a s' ha

/-- What comes after the tour. -/
theorem then_silent (hx : KeepsTo view wrong x y Q s)
    (hf : ∀ a s', Q a s' → ∃ b s'', f a s' = .ok b s'' ∧ view s'' = view s' ∧ R b s'') :
    KeepsTo view wrong (x >>= f) y R s := by
  unfold KeepsTo at hx ⊢
  split at hx
  · obtain ⟨s', hs'⟩ := hx
    exact ⟨s', run_bind_error hs'⟩
  · obtain ⟨a, s', hok, hview, ha⟩ := hx
    obtain ⟨b, s'', hok', hview', hb⟩ := hf a s' ha
    exact ⟨b, s'', (run_bind_ok hok).trans hok', hview'.trans hview, hb⟩

/-- A step that returns, and the rest. -/
theorem move_bind {g : π → π} (hx : x s = .ok a s') (hview : view s' = g (view s))
    (hf : KeepsTo view wrong (f a) z R s') :
    KeepsTo view wrong (x >>= f) ((Tour.move g).andThen z) R s :=
  .bind (.move (Q := fun b t => b = a ∧ t = s') hx hview ⟨rfl, rfl⟩) fun _ _ ⟨hb, ht⟩ => by
    subst hb ht
    exact hf

theorem ite {p : Prop} [Decidable p] {x' : EStateM ε σ α} {y' : Tour π V}
    (hpos : p → KeepsTo view wrong x y Q s) (hneg : ¬ p → KeepsTo view wrong x' y' Q s) :
    KeepsTo view wrong (if p then x else x') (if p then y else y') Q s := by
  split
  · exact hpos ‹p›
  · exact hneg ‹¬ p›

/-- Something is noted with which nothing is wrong. -/
theorem pass {v : π → V} (hv : wrong (v (view s)) = none) (hx : KeepsTo view wrong x y Q s) :
    KeepsTo view wrong x ((Tour.note v).andThen y) Q s := by
  unfold KeepsTo at hx ⊢
  rw [Tour.andThen, Tour.note, List.singleton_append, List.findSome?_cons, hv]
  exact hx

/-- Something is noted that is wrong, and raised: it does not matter how the tour goes on. -/
theorem stop {v : π → V} {e : ε} (hv : wrong (v (view s)) = some e) (hx : x s = .error e s') :
    KeepsTo view wrong x ((Tour.note v).andThen y) Q s := by
  unfold KeepsTo
  rw [Tour.andThen, Tour.note, List.singleton_append, List.findSome?_cons, hv]
  exact ⟨s', hx⟩

end KeepsTo

/-! ### What is met on the way -/

section

variable {ok A B : V → Prop}

/-- Going through things as long as they are in order, one comes to one of which `A` holds. -/
def Meets (ok A : V → Prop) : List V → Prop
  | [] => False
  | v :: vs => A v ∨ ok v ∧ Meets ok A vs

theorem meets_append {vs ws : List V} :
    Meets ok A (vs ++ ws) ↔ Meets ok A vs ∨ (∀ v ∈ vs, ok v) ∧ Meets ok A ws := by
  induction vs with
  | nil => simp [Meets]
  | cons v vs ih =>
    rw [List.cons_append, Meets, Meets, ih, List.forall_mem_cons]
    tauto

theorem meets_iff {vs : List V} :
    Meets ok A vs ↔ ∃ before v after, vs = before ++ v :: after ∧ (∀ w ∈ before, ok w) ∧ A v := by
  constructor
  · intro h
    induction vs with
    | nil => cases h
    | cons v vs ih =>
      rcases h with h | ⟨hv, h⟩
      · exact ⟨[], v, vs, rfl, nofun, h⟩
      · obtain ⟨before, w, after, rfl, hbefore, hw⟩ := ih h
        exact ⟨v :: before, w, after, rfl, List.forall_mem_cons.mpr ⟨hv, hbefore⟩, hw⟩
  · rintro ⟨before, v, after, rfl, hbefore, hv⟩
    exact meets_append.mpr <| .inr ⟨hbefore, .inl hv⟩

theorem Meets.mono {vs : List V} (h : Meets ok A vs) (hAB : ∀ v, A v → B v) : Meets ok B vs := by
  obtain ⟨before, v, after, rfl, hbefore, hv⟩ := meets_iff.mp h
  exact meets_iff.mpr ⟨before, v, after, rfl, hbefore, hAB v hv⟩

theorem not_meets {vs : List V} (h : ∀ v, ¬ A v) : ¬ Meets ok A vs := by
  intro hmeets
  obtain ⟨before, v, after, -, -, hv⟩ := meets_iff.mp hmeets
  exact h v hv

/-- From `p`, one meets an `A` on the tour exactly if one meets a `B`. If all is in order, it leads to
where `I` holds. -/
structure Agrees (ok A B : V → Prop) (I : π → Prop) (y : Tour π V) (p : π) : Prop where
  meets : Meets ok A (y p).2 ↔ Meets ok B (y p).2
  leads : (∀ v ∈ (y p).2, ok v) → I (y p).1

namespace Agrees

variable {I J : π → Prop} {y z : Tour π V} {p : π}

theorem stay (h : I p) : Agrees ok A B I .stay p := ⟨.rfl, fun _ => h⟩

theorem move {f : π → π} (h : I (f p)) : Agrees ok A B I (.move f) p := ⟨.rfl, fun _ => h⟩

theorem seeing {y : π → Tour π V} (h : Agrees ok A B I (y p) p) : Agrees ok A B I (.seeing y) p :=
  ⟨h.meets, h.leads⟩

/-- Only where the tour leads from `p` matters. -/
theorem along (h : y p = z p) (hz : Agrees ok A B I z p) : Agrees ok A B I y p := by
  obtain ⟨hmeets, hleads⟩ := hz
  rw [← h] at hmeets hleads
  exact ⟨hmeets, hleads⟩

theorem move_andThen {f : π → π} (hz : Agrees ok A B I z (f p)) :
    Agrees ok A B I ((Tour.move f).andThen z) p :=
  ⟨hz.meets, hz.leads⟩

theorem note {v : π → V} (hv : A (v p) ↔ B (v p)) (h : ok (v p) → I p) : Agrees ok A B I (.note v) p where
  meets := or_congr hv .rfl
  leads hall := h (hall _ List.mem_cons_self)

/-- What comes after a thing is looked at only if that is in order. -/
theorem note_andThen {v : π → V} (hv : A (v p) ↔ B (v p)) (hy : ok (v p) → Agrees ok A B I y p) :
    Agrees ok A B I ((Tour.note v).andThen y) p where
  meets := or_congr hv <| and_congr_right fun h => (hy h).meets
  leads hall :=
    have ⟨hfirst, hall⟩ := List.forall_mem_cons.mp hall
    (hy hfirst).leads hall

theorem andThen (hy : Agrees ok A B J y p) (hz : ∀ p, J p → Agrees ok A B I z p) :
    Agrees ok A B I (y.andThen z) p where
  meets := by
    rw [Tour.andThen, meets_append, meets_append]
    exact or_congr hy.meets <| and_congr_right fun h => (hz _ (hy.leads h)).meets
  leads hall := by
    obtain ⟨hvs, hws⟩ := List.forall_mem_append.mp hall
    exact (hz _ (hy.leads hvs)).leads hws

theorem each {y : α → Tour π V} (h : ∀ a p, I p → Agrees ok A B I (y a) p) (as : List α) :
    ∀ p, I p → Agrees ok A B I (.each y as) p := by
  induction as with
  | nil => exact fun _ => stay
  | cons a as ih => exact fun p hp => (h a p hp).andThen ih

end Agrees

end

end Effect
