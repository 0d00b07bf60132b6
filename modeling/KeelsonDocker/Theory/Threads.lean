import Mathlib.Algebra.BigOperators.Group.Finset.Basic
import Mathlib.Data.Fintype.Basic

/-!
# Threads without a lock

A program is what is left of a call: it returns, raises, or makes a step on what is shared and goes on by
what it saw. Threads make calls and their steps interleave, with each other and with an environment. What
every step of a program keeps, runs keep (`Step.keeps`); where every step moves what a call holds to or
from a common account, no run loses anything (`Accounted.step`).
-/

namespace Threads

inductive Prog (S ε α : Type) where
  | ret (a : α)
  | raise (e : ε)
  /-- One step: it changes what is shared, and what follows depends on what was there. -/
  | step (act : S → S) (next : S → Prog S ε α)

namespace Prog

variable {S ε α β : Type}

def bind : Prog S ε α → (α → Prog S ε β) → Prog S ε β
  | ret a, f => f a
  | raise e, _ => raise e
  | step act next, f => step act fun s => (next s).bind f

def tryCatch : Prog S ε α → (ε → Prog S ε α) → Prog S ε α
  | ret a, _ => ret a
  | raise e, f => f e
  | step act next, f => step act fun s => (next s).tryCatch f

instance : Monad (Prog S ε) where
  pure := ret
  bind := bind

instance : MonadExcept ε (Prog S ε) where
  throw := raise
  tryCatch := tryCatch

/-- A call that nothing comes between. -/
def atomic (f : S → Except ε α × S) : Prog S ε α :=
  step (fun s => (f s).2) fun s =>
    match (f s).1 with
    | .ok a => ret a
    | .error e => raise e

/-! ### What is to be shown of a program -/

section

variable {γ : Type} {R : S → S → γ → γ → Prop} {Q : α → γ → Prop} {E : ε → γ → Prop} {g : γ}

/-- Whatever is shared when its steps come, the program keeps its books: they change as `R` has it with
every step, and end as `Q` has it for what is returned, or `E` for what is raised. -/
def Runs (R : S → S → γ → γ → Prop) (Q : α → γ → Prop) (E : ε → γ → Prop) : γ → Prog S ε α → Prop
  | g, ret a => Q a g
  | g, raise e => E e g
  | g, step act next => ∀ s, ∃ g', R s (act s) g g' ∧ Runs R Q E g' (next s)

theorem runs_bind {Q : β → γ → Prop} {p : Prog S ε α} {f : α → Prog S ε β} :
    (p >>= f).Runs R Q E g ↔ p.Runs R (fun a g => (f a).Runs R Q E g) E g := by
  show (p.bind f).Runs R Q E g ↔ _
  induction p generalizing g with
  | ret a => exact .rfl
  | raise e => exact .rfl
  | step act next ih => simp only [bind, Runs, ih]

theorem runs_tryCatch {p : Prog S ε α} {f : ε → Prog S ε α} :
    (MonadExcept.tryCatch p f).Runs R Q E g ↔ p.Runs R Q (fun e g => (f e).Runs R Q E g) g := by
  show (p.tryCatch f).Runs R Q E g ↔ _
  induction p generalizing g with
  | ret a => exact .rfl
  | raise e => exact .rfl
  | step act next ih => simp only [tryCatch, Runs, ih]

theorem Runs.imp {Q' : α → γ → Prop} {p : Prog S ε α} (h : p.Runs R Q E g)
    (hQ : ∀ a g, Q a g → Q' a g) : p.Runs R Q' E g := by
  induction p generalizing g with
  | ret a => exact hQ a g h
  | raise e => exact h
  | step act next ih =>
    intro s
    obtain ⟨g', hR, hnext⟩ := h s
    exact ⟨g', hR, ih s hnext⟩

theorem runs_atomic {f : S → Except ε α × S}
    (h : ∀ s, ∃ g', R s (f s).2 g g' ∧ (∀ a, (f s).1 = .ok a → Q a g') ∧
      ∀ e, (f s).1 = .error e → E e g') : (atomic f).Runs R Q E g := by
  intro s
  obtain ⟨g', hR, hQ, hE⟩ := h s
  refine ⟨g', hR, ?_⟩
  cases hf : (f s).1 with
  | ok a =>
    simp only [hf]
    exact hQ a hf
  | error e =>
    simp only [hf]
    exact hE e hf

end

/-- It returns after so many steps of its own at most, whatever the others do, and never raises. -/
def Within (n : Nat) (p : Prog S ε α) : Prop :=
  p.Runs (fun _ _ n n' => n' < n) (fun _ _ => True) (fun _ _ => False) n

theorem runs_forM {γ δ : Type} {R : S → S → γ → γ → Prop} {E : ε → γ → Prop} {f : δ → Prog S ε Unit}
    {P : List δ → γ → Prop} (h : ∀ x xs g, P (x :: xs) g → (f x).Runs R (fun _ => P xs) E g)
    {xs : List δ} {g : γ} (hP : P xs g) : (xs.forM f).Runs R (fun _ => P []) E g := by
  induction xs generalizing g with
  | nil => exact hP
  | cons x xs ih =>
    refine runs_bind.mpr ((h x xs g hP).imp ?_)
    exact fun _ _ hxs => ih hxs

/-- Each of its steps keeps `I`. -/
def Keeps (I : S → Prop) (p : Prog S ε α) : Prop :=
  p.Runs (fun s s' _ _ => I s → I s') (fun _ _ => True) (fun _ _ => True) ()

/-- What it holds is `n`, and it brings all of it to the account, step by step. -/
def Brings (value : S → Nat) (n : Nat) (p : Prog S ε α) : Prop :=
  p.Runs (fun s s' n n' => value s' + n' = value s + n) (fun _ n => n = 0) (fun _ _ => False) n

end Prog

/-! ### Threads -/

/-- The threads `ι`, each idle or in the middle of a call, and how many calls have returned. -/
structure State (ι S ε α : Type) where
  shared : S
  threads : ι → Option (Prog S ε α)
  returned : Nat := 0

variable {ι S ε α : Type} [DecidableEq ι] {calls : Prog S ε α → Prop} {env : S → S → Prop}
  {s s' : State ι S ε α}

/-- A thread makes one of the `calls`, goes on with it or returns from it, or the environment acts. -/
inductive Step (calls : Prog S ε α → Prop) (env : S → S → Prop) :
    State ι S ε α → State ι S ε α → Prop
  | call {s : State ι S ε α} {i : ι} {p : Prog S ε α} : s.threads i = none → calls p →
    Step calls env s { s with threads := Function.update s.threads i (some p) }
  | act {s : State ι S ε α} {i : ι} {f : S → S} {next : S → Prog S ε α} :
    s.threads i = some (.step f next) →
    Step calls env s
      { s with shared := f s.shared, threads := Function.update s.threads i (some (next s.shared)) }
  | ret {s : State ι S ε α} {i : ι} {a : α} : s.threads i = some (.ret a) →
    Step calls env s
      { s with threads := Function.update s.threads i none, returned := s.returned + 1 }
  | env {s : State ι S ε α} {x : S} : env s.shared x → Step calls env s { s with shared := x }

inductive Reached (calls : Prog S ε α → Prop) (env : S → S → Prop) (s₀ : State ι S ε α) :
    State ι S ε α → Prop
  | refl : Reached calls env s₀ s₀
  | tail {s s' : State ι S ε α} : Reached calls env s₀ s → Step calls env s s' →
    Reached calls env s₀ s'

/-- What is said of every call in progress. -/
def Each (P : Prog S ε α → Prop) (s : State ι S ε α) : Prop := ∀ i, ∀ p ∈ s.threads i, P p

theorem Each.update {P : Prog S ε α → Prop} {threads : ι → Option (Prog S ε α)} {i : ι}
    {o : Option (Prog S ε α)} (h : ∀ j, ∀ p ∈ threads j, P p) (ho : ∀ p ∈ o, P p) :
    ∀ j, ∀ p ∈ Function.update threads i o j, P p := by
  intro j p hp
  by_cases hji : j = i
  · subst hji
    rw [Function.update_self] at hp
    exact ho p hp
  · rw [Function.update_of_ne hji] at hp
    exact h j p hp

/-- What holds of every call, and of what is left of it after a step. -/
theorem Each.step {P : Prog S ε α → Prop} (h : Each P s) (hcalls : ∀ p, calls p → P p)
    (hnext : ∀ f next x, P (.step f next) → P (next x)) (hstep : Step calls env s s') : Each P s' := by
  cases hstep with
  | @call i p _ hp =>
    refine Each.update h fun q hq => ?_
    cases hq
    exact hcalls p hp
  | @act i f next hi =>
    refine Each.update h fun q hq => ?_
    cases hq
    exact hnext f next s.shared (h i _ hi)
  | ret _ => exact Each.update h fun q hq => nomatch hq
  | env _ => exact h

theorem Each.reached {P : Prog S ε α → Prop} {s₀ : State ι S ε α} (h₀ : Each P s₀)
    (hcalls : ∀ p, calls p → P p) (hnext : ∀ f next x, P (.step f next) → P (next x))
    (h : Reached calls env s₀ s) : Each P s := by
  induction h with
  | refl => exact h₀
  | tail _ hstep ih => exact ih.step hcalls hnext hstep

theorem Prog.Keeps.next {I : S → Prop} {f : S → S} {next : S → Prog S ε α} {x : S}
    (h : Prog.Keeps I (.step f next)) : (I x → I (f x)) ∧ Prog.Keeps I (next x) := by
  obtain ⟨_, hx, hnext⟩ := h x
  exact ⟨hx, hnext⟩

/-- What all steps keep holds of what is shared. -/
theorem Reached.keeps {I : S → Prop} {s₀ : State ι S ε α} (h : Reached calls env s₀ s)
    (hidle : ∀ i, s₀.threads i = none) (hcalls : ∀ p, calls p → p.Keeps I)
    (henv : ∀ x y, I x → env x y → I y) (h₀ : I s₀.shared) : I s.shared := by
  have heach₀ : Each (Prog.Keeps I) s₀ := by
    intro i p hp
    rw [hidle i] at hp
    cases hp
  induction h with
  | refl => exact h₀
  | tail hreached hstep ih =>
    have heach := heach₀.reached hcalls (fun _ _ _ h => h.next.2) hreached
    cases hstep with
    | call _ _ => exact ih
    | @act i f next hi => exact (heach i _ hi).next.1 ih
    | ret _ => exact ih
    | env he => exact henv _ _ ih he

/-- A call that is sure to return stays so. -/
theorem Prog.Within.next {n : Nat} {f : S → S} {next : S → Prog S ε α} {x : S}
    (h : Prog.Within n (.step f next)) : ∃ m < n, Prog.Within m (next x) := h x

theorem Reached.within {n : Nat} {s₀ : State ι S ε α} (h : Reached calls env s₀ s)
    (hidle : ∀ i, s₀.threads i = none) (hcalls : ∀ p, calls p → p.Within n) :
    Each (fun p => ∃ m ≤ n, p.Within m) s := by
  refine Each.reached (fun i p hp => ?_) (fun p hp => ⟨n, le_rfl, hcalls p hp⟩) ?_ h
  · rw [hidle i] at hp
    cases hp
  · intro f next x ⟨m, hm, hwithin⟩
    obtain ⟨m', hm', hnext⟩ := hwithin.next
    exact ⟨m', hm'.le.trans hm, hnext⟩

/-! ### Books of their own -/

theorem mem_update {threads : ι → Option (Prog S ε α)} {i j : ι} {o : Option (Prog S ε α)}
    {p : Prog S ε α} (h : p ∈ Function.update threads i o j) :
    j = i ∧ p ∈ o ∨ j ≠ i ∧ p ∈ threads j := by
  by_cases hji : j = i
  · subst hji
    rw [Function.update_self] at h
    exact .inl ⟨rfl, h⟩
  · rw [Function.update_of_ne hji] at h
    exact .inr ⟨hji, h⟩

/-- Each thread keeps books by a rule of its own, which end as `Q` has it; and all of them together agree
with what is shared. -/
structure Booked {γ : Type} (R : ι → S → S → γ → γ → Prop) (Q : ι → γ → Prop) (I : S → (ι → γ) → Prop)
    (s : State ι S ε α) (books : ι → γ) : Prop where
  shared : I s.shared books
  runs : ∀ i, ∀ p ∈ s.threads i, p.Runs (R i) (fun _ => Q i) (fun _ _ => False) (books i)
  closed : ∀ i, s.threads i = none → Q i (books i)

theorem Booked.step {γ : Type} {R : ι → S → S → γ → γ → Prop} {Q : ι → γ → Prop}
    {I : S → (ι → γ) → Prop} {books : ι → γ} (h : Booked R Q I s books)
    (hact : ∀ i x y books g, I x books → R i x y (books i) g → I y (Function.update books i g))
    (henv : ∀ x y books, I x books → env x y → I y books)
    (hstep : Step (fun _ => False) env s s') : ∃ books, Booked R Q I s' books := by
  cases hstep with
  | call _ hno => exact hno.elim
  | @act i f next hi =>
    obtain ⟨g, hR, hnext⟩ := h.runs i _ hi _
    refine ⟨Function.update books i g, hact i _ _ books g h.shared hR, fun j p hp => ?_, fun j hj => ?_⟩
    · obtain ⟨rfl, hnew⟩ | ⟨hji, hold⟩ := mem_update hp
      · cases hnew
        rw [Function.update_self]
        exact hnext
      · rw [Function.update_of_ne hji]
        exact h.runs j p hold
    · by_cases hji : j = i
      · subst hji
        simp at hj
      · simp only [Function.update_of_ne hji] at hj ⊢
        exact h.closed j hj
  | @ret i a hi =>
    refine ⟨books, h.shared, fun j p hp => ?_, fun j hj => ?_⟩
    · obtain ⟨rfl, hnew⟩ | ⟨_, hold⟩ := mem_update hp
      · cases hnew
      · exact h.runs j p hold
    · by_cases hji : j = i
      · subst hji
        exact h.runs j _ hi
      · simp only [Function.update_of_ne hji] at hj
        exact h.closed j hj
  | env he => exact ⟨books, henv _ _ books h.shared he, h.runs, h.closed⟩

theorem Reached.booked {γ : Type} {R : ι → S → S → γ → γ → Prop} {Q : ι → γ → Prop}
    {I : S → (ι → γ) → Prop} {s₀ : State ι S ε α} (h : Reached (fun _ => False) env s₀ s)
    (h₀ : ∃ books, Booked R Q I s₀ books)
    (hact : ∀ i x y books g, I x books → R i x y (books i) g → I y (Function.update books i g))
    (henv : ∀ x y books, I x books → env x y → I y books) : ∃ books, Booked R Q I s books := by
  induction h with
  | refl => exact h₀
  | tail _ hstep ih =>
    obtain ⟨books, hbooks⟩ := ih
    exact hbooks.step hact henv hstep

/-! ### A common account -/

section

variable [Fintype ι] {value : S → Nat} {held : ι → Nat}

/-- How many calls are in progress. -/
def State.busy (s : State ι S ε α) : Nat := ∑ i, if (s.threads i).isSome then 1 else 0

/-- Every call was about one thing: it is in the account, or held by a call in progress, which has yet to
bring it there. -/
structure Accounted (value : S → Nat) (s : State ι S ε α) (held : ι → Nat) : Prop where
  idle : ∀ i, s.threads i = none → held i = 0
  brings : ∀ i, ∀ p ∈ s.threads i, p.Brings value (held i)
  total : s.returned + s.busy = value s.shared + ∑ i, held i

theorem sum_update (f : ι → Nat) (i : ι) (n : Nat) :
    ∑ j, Function.update f i n j + f i = ∑ j, f j + n := by
  have hrest : ∑ j ∈ Finset.univ.erase i, Function.update f i n j = ∑ j ∈ Finset.univ.erase i, f j :=
    Finset.sum_congr rfl fun j hj => Function.update_of_ne (Finset.ne_of_mem_erase hj) n f
  have hupdate := Finset.sum_erase_add Finset.univ (Function.update f i n) (Finset.mem_univ i)
  have hf := Finset.sum_erase_add Finset.univ f (Finset.mem_univ i)
  rw [hrest, Function.update_self] at hupdate
  omega

theorem busy_update (threads : ι → Option (Prog S ε α)) (i : ι) (o : Option (Prog S ε α)) :
    (∑ j, if (Function.update threads i o j).isSome then 1 else 0) +
        (if (threads i).isSome then 1 else 0) =
      (∑ j, if (threads j).isSome then 1 else 0) + if o.isSome then 1 else 0 := by
  have hfun : (fun j => if (Function.update threads i o j).isSome then 1 else 0) =
      Function.update (fun j => if (threads j).isSome then 1 else 0) i
        (if o.isSome then 1 else 0 : Nat) := by
    funext j
    by_cases hji : j = i
    · subst hji
      simp
    · simp [Function.update_of_ne hji]
  rw [hfun]
  exact sum_update _ i _

omit [DecidableEq ι] in
theorem Accounted.start {x : S} (h : value x = 0) :
    Accounted value ({ shared := x, threads := fun _ => none } : State ι S ε α) fun _ => 0 where
  idle _ _ := rfl
  brings _ _ hp := nomatch hp
  total := by simp [State.busy, h]

omit [Fintype ι] in
/-- The parts of `Accounted` that speak of each thread, when one of them moves. -/
theorem Accounted.update {threads : ι → Option (Prog S ε α)} {i : ι} {o : Option (Prog S ε α)} {n : Nat}
    (hidle : ∀ j, threads j = none → held j = 0)
    (hbrings : ∀ j, ∀ p ∈ threads j, p.Brings value (held j)) (hn : o = none → n = 0)
    (ho : ∀ p ∈ o, p.Brings value n) :
    (∀ j, Function.update threads i o j = none → Function.update held i n j = 0) ∧
      ∀ j, ∀ p ∈ Function.update threads i o j, p.Brings value (Function.update held i n j) := by
  constructor
  · intro j hj
    by_cases hji : j = i
    · subst hji
      rw [Function.update_self] at hj ⊢
      exact hn hj
    · rw [Function.update_of_ne hji] at hj ⊢
      exact hidle j hj
  · intro j p hp
    by_cases hji : j = i
    · subst hji
      rw [Function.update_self] at hp ⊢
      exact ho p hp
    · rw [Function.update_of_ne hji] at hp ⊢
      exact hbrings j p hp

/-- A thread moves, and brings to the account what it held or takes it from there. -/
theorem Accounted.move {x : S} {k : Nat} {i : ι} {o : Option (Prog S ε α)} {n : Nat}
    (h : Accounted value s held) (hn : o = none → n = 0) (ho : ∀ p ∈ o, p.Brings value n)
    (htotal : k + (if o.isSome then 1 else 0) + value s.shared + held i =
      s.returned + (if (s.threads i).isSome then 1 else 0) + value x + n) :
    Accounted value { shared := x, threads := Function.update s.threads i o, returned := k }
      (Function.update held i n) := by
  obtain ⟨hidle, hbrings⟩ := Accounted.update h.idle h.brings hn ho
  refine ⟨hidle, hbrings, ?_⟩
  have hbefore := h.total
  have hbusy := busy_update s.threads i o
  have hsum := sum_update held i n
  unfold State.busy at hbefore ⊢
  dsimp only
  omega

/-- **Nothing gets lost**: a step moves what a call holds to the account or back. -/
theorem Accounted.step (h : Accounted value s held) (hcalls : ∀ p, calls p → p.Brings value 1)
    (henv : ∀ x y, env x y → value y = value x) (hstep : Step calls env s s') :
    ∃ held', Accounted value s' held' := by
  cases hstep with
  | @call i p hi hp =>
    refine ⟨_, h.move (o := some p) (n := 1) nofun (fun q hq => ?_) ?_⟩
    · cases hq
      exact hcalls p hp
    · rw [h.idle i hi, hi, Option.isSome_some, Option.isSome_none]
      simp only [if_true, Bool.false_eq_true, if_false]
      omega
  | @act i f next hi =>
    obtain ⟨n, hvalue, hn⟩ := h.brings i _ hi s.shared
    refine ⟨_, h.move (o := some (next s.shared)) (n := n) nofun (fun q hq => ?_) ?_⟩
    · cases hq
      exact hn
    · rw [hi, Option.isSome_some, Option.isSome_some]
      omega
  | @ret i a hi =>
    have hzero : held i = 0 := h.brings i _ hi
    refine ⟨_, h.move (o := none) (n := 0) (fun _ => rfl) nofun ?_⟩
    rw [hi, hzero, Option.isSome_some, Option.isSome_none]
    simp only [if_true, Bool.false_eq_true, if_false]
  | @env x hx =>
    refine ⟨held, h.idle, h.brings, ?_⟩
    show s.returned + s.busy = value x + _
    rw [henv _ _ hx]
    exact h.total

theorem Reached.accounted {s₀ : State ι S ε α} (h : Reached calls env s₀ s)
    (h₀ : ∃ held, Accounted value s₀ held) (hcalls : ∀ p, calls p → p.Brings value 1)
    (henv : ∀ x y, env x y → value y = value x) : ∃ held, Accounted value s held := by
  induction h with
  | refl => exact h₀
  | tail _ hstep ih =>
    obtain ⟨held, hheld⟩ := ih
    exact hheld.step hcalls henv hstep

end

end Threads
