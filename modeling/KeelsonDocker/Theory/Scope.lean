import KeelsonDocker.Theory.Effect

/-!
# Context managers

What is entered is left on every path: `within` is a `with` block, `stacked` one of an `ExitStack` that
enters managers one after the other. They agree (`stacked_eq_nested`), so that what holds of nested blocks
holds of a stack. `Keeps` says that what a procedure appends to a trace brings a monitor back to where
something holds; a block does so if its body does where the manager was entered (`Keeps.within`).
-/

namespace Scope

open Effect

variable {ε σ τ κ α β : Type}

/-- What `__enter__` and `__exit__` do. An exception is never suppressed. -/
structure Manager (ε σ : Type) where
  enter : EStateM ε σ Unit
  exit : EStateM ε σ Unit

namespace Manager

/-- What follows once the manager is entered. -/
def leave (m : Manager ε σ) (body : EStateM ε σ α) : EStateM ε σ α := do
  let a ← tryCatch body fun e => do
    m.exit
    throw e
  m.exit
  return a

/-- `with m: body` -/
def within (m : Manager ε σ) (body : EStateM ε σ α) : EStateM ε σ α := do
  m.enter
  m.leave body

end Manager

/-- `with` blocks within each other. -/
def nested (ms : List (Manager ε σ)) (body : EStateM ε σ α) : EStateM ε σ α :=
  ms.foldr Manager.within body

/-! ### `ExitStack` -/

/-- The callbacks run, the last one first, each whatever those before it came to; an exception of one of
them takes the place of the one on its way. -/
def unwind : List (Manager ε σ) → Except ε α → EStateM ε σ α
  | [], .ok a => return a
  | [], .error e => throw e
  | m :: ms, result => fun s =>
    match m.exit s with
    | .ok _ s' => unwind ms result s'
    | .error e s' => unwind ms (.error e) s'

/-- A block whose stack holds the callbacks of `entered`. -/
def closing (entered : List (Manager ε σ)) (body : EStateM ε σ α) : EStateM ε σ α := fun s =>
  match body s with
  | .ok a s' => unwind entered (.ok a) s'
  | .error e s' => unwind entered (.error e) s'

/-- `with ExitStack() as stack:`, where `stack.enter_context` for each of the managers comes first. -/
def stacked (body : EStateM ε σ α) : (ms entered : List (Manager ε σ)) → EStateM ε σ α
  | [], entered => closing entered body
  | m :: ms, entered => fun s =>
    match m.enter s with
    | .ok _ s' => stacked body ms (m :: entered) s'
    | .error e s' => unwind entered (.error e) s'

section

variable {m : Manager ε σ} {ms entered : List (Manager ε σ)} {body : EStateM ε σ α} {s s' : σ}

theorem leave_ok {a : α} (h : body s = .ok a s') : m.leave body s =
    match m.exit s' with
    | .ok _ s'' => .ok a s''
    | .error e s'' => .error e s'' := by
  unfold Manager.leave
  rw [run_bind_ok (run_tryCatch_ok h)]
  cases hexit : m.exit s' with
  | ok u s'' => exact run_bind_ok hexit
  | error e s'' => exact run_bind_error hexit

theorem leave_error {e : ε} (h : body s = .error e s') : m.leave body s =
    match m.exit s' with
    | .ok _ s'' => .error e s''
    | .error e' s'' => .error e' s'' := by
  unfold Manager.leave
  have hcatch := run_tryCatch_error (f := fun e => do m.exit; throw e) h
  cases hexit : m.exit s' with
  | ok u s'' => exact run_bind_error (hcatch.trans (run_bind_ok hexit))
  | error e' s'' => exact run_bind_error (hcatch.trans (run_bind_error hexit))

/-- A callback more is a block more. -/
theorem closing_cons (entered : List (Manager ε σ)) :
    closing (m :: entered) body = closing entered (m.leave body) := by
  funext s
  unfold closing
  cases hbody : body s with
  | ok a s' =>
    rw [leave_ok hbody]
    cases hexit : m.exit s' <;> simp only [unwind, hexit]
  | error e s' =>
    rw [leave_error hbody]
    cases hexit : m.exit s' <;> simp only [unwind, hexit]

theorem stacked_eq (body : EStateM ε σ α) (ms entered : List (Manager ε σ)) :
    stacked body ms entered = closing entered (nested ms body) := by
  induction ms generalizing entered with
  | nil => rfl
  | cons m ms ih =>
    funext s
    show (match m.enter s with
      | .ok _ s' => stacked body ms (m :: entered) s'
      | .error e s' => unwind entered (.error e) s') = closing entered (m.within (nested ms body)) s
    cases henter : m.enter s with
    | ok u s' =>
      dsimp only
      rw [ih, closing_cons, closing, closing, Manager.within, run_bind_ok henter]
    | error e s' => rw [closing, Manager.within, run_bind_error henter]

/-- A stack is left as nested blocks are. -/
theorem stacked_eq_nested (body : EStateM ε σ α) (ms : List (Manager ε σ)) :
    stacked body ms [] = nested ms body := by
  rw [stacked_eq]
  funext s
  unfold closing
  cases nested ms body s <;> rfl

end

/-! ### What a block appends -/

section

variable {view : σ → List τ} {P : τ → Prop} {m : Manager ε σ} {body : EStateM ε σ α}

theorem Appends.within (henter : Appends view P m.enter) (hexit : Appends view P m.exit)
    (hbody : Appends view P body) : Appends view P (m.within body) := by
  refine .bind henter fun _ _ _ _ => .bind (.tryCatch (fun e => ?_) hbody) fun _ _ _ _ => ?_
  · exact .bind hexit fun _ _ _ _ => .throw e
  · exact .bind hexit fun _ _ _ _ => .pure _

theorem Appends.nested {ms : List (Manager ε σ)}
    (hms : ∀ m ∈ ms, Appends view P m.enter ∧ Appends view P m.exit) (hbody : Appends view P body) :
    Appends view P (nested ms body) := by
  induction ms with
  | nil => exact hbody
  | cons m ms ih =>
    obtain ⟨henter, hexit⟩ := hms m List.mem_cons_self
    exact within henter hexit (ih fun m' hm' => hms m' (List.mem_cons_of_mem m hm'))

end

/-! ### Traces that come back -/

section

variable (step : κ → τ → Option κ) (view : σ → List τ)

/-- From wherever `K` holds, the monitor lets pass what is appended to the trace, and `K` holds again in the
end, whatever comes of it. -/
def Keeps (K : κ → Prop) (x : EStateM ε σ α) : Prop :=
  ∀ k, K k → ∀ s, ∃ l k', Adds view x s l ∧ l.foldlM step k = some k' ∧ K k'

/-- If it is entered, the monitor goes from `K` to `K'`; however it is left, it goes back. -/
structure Opens (m : Manager ε σ) (K K' : κ → Prop) : Prop where
  enter : ∀ {k s s'}, K k → m.enter s = .ok () s' →
    ∃ l k', view s' = view s ++ l ∧ l.foldlM step k = some k' ∧ K' k'
  refused : ∀ {k s e s'}, K k → m.enter s = .error e s' →
    ∃ l k', view s' = view s ++ l ∧ l.foldlM step k = some k' ∧ K k'
  exit : ∀ {k}, K' k → ∀ s, ∃ l k', Adds view m.exit s l ∧ l.foldlM step k = some k' ∧ K k'

variable {step view} {K K' : κ → Prop} {x : EStateM ε σ α} {f : α → EStateM ε σ β} {m : Manager ε σ}

theorem foldlM_append {l l' : List τ} {k k' k'' : κ} (h : l.foldlM step k = some k')
    (h' : l'.foldlM step k' = some k'') : (l ++ l').foldlM step k = some k'' := by
  rw [List.foldlM_append, h]
  exact h'

namespace Keeps

theorem silent (h : ∀ s, view (after x s) = view s) : Keeps step view K x :=
  fun k hk s => ⟨[], k, by rw [Adds, h, List.append_nil], rfl, hk⟩

theorem pure (a : α) : Keeps step view K (Pure.pure a : EStateM ε σ α) := silent fun _ => rfl

theorem throw (e : ε) : Keeps step view K (MonadExcept.throw e : EStateM ε σ α) := silent fun _ => rfl

theorem bind (hx : Keeps step view K x) (hf : ∀ a, Keeps step view K (f a)) :
    Keeps step view K (x >>= f) := by
  intro k hk s
  obtain ⟨l, k', hl, hstep, hk'⟩ := hx k hk s
  cases h : x s with
  | error e s' => exact ⟨l, k', hl.bind_error h, hstep, hk'⟩
  | ok a s' =>
    obtain ⟨l', k'', hl', hstep', hk''⟩ := hf a k' hk' s'
    exact ⟨l ++ l', k'', hl.bind_ok h hl', foldlM_append hstep hstep', hk''⟩

theorem tryCatch {g : ε → EStateM ε σ α} (hx : Keeps step view K x) (hg : ∀ e, Keeps step view K (g e)) :
    Keeps step view K (tryCatch x g) := by
  intro k hk s
  obtain ⟨l, k', hl, hstep, hk'⟩ := hx k hk s
  cases h : x s with
  | ok a s' =>
    refine ⟨l, k', ?_, hstep, hk'⟩
    rw [Adds, after_ok (run_tryCatch_ok h), ← after_ok h, hl]
  | error e s' =>
    obtain ⟨l', k'', hl', hstep', hk''⟩ := hg e k' hk' s'
    refine ⟨l ++ l', k'', ?_, foldlM_append hstep hstep', hk''⟩
    rw [Adds, after_error h] at hl
    rw [Adds, after, run_tryCatch_error h, ← after, hl', hl, List.append_assoc]

theorem ite {p : Prop} [Decidable p] {y : EStateM ε σ α} (hx : p → Keeps step view K x)
    (hy : ¬ p → Keeps step view K y) : Keeps step view K (if p then x else y) := by
  split
  · exact hx ‹_›
  · exact hy ‹_›

theorem forM {as : List β} {f : β → EStateM ε σ PUnit} (h : ∀ a ∈ as, Keeps step view K (f a)) :
    Keeps step view K (as.forM f) := by
  induction as with
  | nil => exact .pure _
  | cons a as ih =>
    show Keeps step view K (f a >>= fun _ => as.forM f)
    exact .bind (h a List.mem_cons_self) fun _ => ih fun b hb => h b (List.mem_cons_of_mem a hb)

/-- **A block comes back**, whether its body returns or raises, and whether the manager can be entered. -/
theorem within {body : EStateM ε σ α} (hm : Opens step view m K K') (hbody : Keeps step view K' body) :
    Keeps step view K (m.within body) := by
  intro k hk s
  unfold Manager.within
  cases henter : m.enter s with
  | error e s' =>
    obtain ⟨l, k', hl, hstep, hk'⟩ := hm.refused hk henter
    refine ⟨l, k', ?_, hstep, hk'⟩
    rw [Adds, after_bind_error henter, hl]
  | ok u s' =>
    obtain ⟨l, k', hl, hstep, hk'⟩ := hm.enter hk henter
    have hleave : ∃ l' k'', view (after (m.leave body) s') = view s' ++ l' ∧
        l'.foldlM step k' = some k'' ∧ K k'' := by
      obtain ⟨lb, kb, hlb, hstepb, hkb⟩ := hbody k' hk' s'
      cases hrun : body s' with
      | ok a s'' =>
        obtain ⟨le, ke, hle, hstepe, hke⟩ := hm.exit hkb s''
        refine ⟨lb ++ le, ke, ?_, foldlM_append hstepb hstepe, hke⟩
        rw [Adds, after_ok hrun] at hlb
        rw [← List.append_assoc, ← hlb, ← hle, after, leave_ok hrun, after]
        cases m.exit s'' <;> rfl
      | error e s'' =>
        obtain ⟨le, ke, hle, hstepe, hke⟩ := hm.exit hkb s''
        refine ⟨lb ++ le, ke, ?_, foldlM_append hstepb hstepe, hke⟩
        rw [Adds, after_error hrun] at hlb
        rw [← List.append_assoc, ← hlb, ← hle, after, leave_error hrun, after]
        cases m.exit s'' <;> rfl
    obtain ⟨l', k'', hl', hstep', hk''⟩ := hleave
    refine ⟨l ++ l', k'', ?_, foldlM_append hstep hstep', hk''⟩
    rw [Adds, after_bind_ok henter, hl', hl, List.append_assoc]

end Keeps

end

end Scope
