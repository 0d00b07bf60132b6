import Mathlib.Data.DFinsupp.WellFounded
import Mathlib.Logic.Relation

/-!
# Threads that take turns

Outside the one lock a thread only looks at what is shared; the thread that holds the lock changes it,
step by step, while the others go on looking. `Rules` are what is to be shown of such a program: what
holds of a thread outside (`Good`), what holds of the one inside since it took the lock (`Inv`), and that
the steps of the one inside leave what holds of the others. Then in every reached state the turns taken
are one after another, each on what the one before it left, and each as `Inv` has it (`Rules.reached`).
-/

namespace Critical

/-- What threads `ι` do with something shared, a state `L` outside the lock and a state `C` inside. -/
structure Program (ι S L C : Type) where
  roam : ι → S → L → L → Prop
  enter : ι → L → C → Prop
  work : ι → C → S → C → S → Prop
  leave : ι → C → L → Prop

/-- The thread that holds the lock, and what was shared when it took it. -/
structure Holder (ι S C : Type) where
  thread : ι
  now : C
  before : S

/-- A turn taken. -/
structure Turn (ι S L C : Type) where
  thread : ι
  ended : C
  left : L
  before : S
  after : S

structure State (ι S L C : Type) where
  shared : S
  locals : ι → L
  holder : Option (Holder ι S C) := none
  /-- The turns taken, the first one first. -/
  turns : List (Turn ι S L C) := []

variable {ι S L C : Type}

/-- What was shared when the lock was last free. -/
def State.settled (s : State ι S L C) : S :=
  match s.holder with
  | none => s.shared
  | some h => h.before

/-- The thread does not hold the lock. -/
def State.Outside (s : State ι S L C) (i : ι) : Prop := ∀ h ∈ s.holder, h.thread ≠ i

/-! ### Turns one after another -/

/-- From `x` the turns lead to `y`, each on what the one before it left. -/
def Chain : S → List (Turn ι S L C) → S → Prop
  | x, [], y => x = y
  | x, turn :: turns, y => turn.before = x ∧ Chain turn.after turns y

variable {P : Program ι S L C} {s₀ s s' : State ι S L C} {x y : S}
  {turn : Turn ι S L C} {turns turns' : List (Turn ι S L C)}

theorem chain_append : Chain x (turns ++ turns') y ↔ ∃ z, Chain x turns z ∧ Chain z turns' y := by
  induction turns generalizing x with
  | nil => simp [Chain]
  | cons turn turns ih => simp [Chain, ih, and_assoc]

/-- A chain of turns leads to what the last one left. -/
theorem Chain.getLast? (h : Chain x turns y) : (x :: turns.map (·.after)).getLast? = some y := by
  induction turns generalizing x with
  | nil => exact congrArg some h
  | cons turn turns ih =>
    obtain ⟨rfl, h⟩ := h
    simpa using ih h

/-- What every turn keeps, a chain of turns keeps. -/
theorem Chain.keeps {K : S → Prop} (h : Chain x turns y) (hx : K x)
    (hkeep : ∀ turn ∈ turns, K turn.before → K turn.after) : K y := by
  induction turns generalizing x with
  | nil => exact h ▸ hx
  | cons turn turns ih =>
    obtain ⟨rfl, h⟩ := h
    exact ih h (hkeep turn (by simp) hx) fun turn' hmem => hkeep turn' (by simp [hmem])

/-- A turn among others is taken on what those before it left. -/
theorem Chain.keeps_before {K : S → Prop} (h : Chain x turns y) (hx : K x)
    (hkeep : ∀ turn ∈ turns, K turn.before → K turn.after) (hmem : turn ∈ turns) : K turn.before := by
  obtain ⟨earlier, later, rfl⟩ := List.append_of_mem hmem
  obtain ⟨z, hz, rfl, _⟩ := chain_append.mp h
  exact hz.keeps hx fun turn' hmem' => hkeep turn' (by simp [hmem'])

/-! ### What is to be shown -/

structure Rules (P : Program ι S L C) (Good : ι → S → L → Prop) (Inv : ι → S → C → S → Prop) :
    Prop where
  roam {i x l l'} : Good i x l → P.roam i x l l' → Good i x l'
  enter {i x l c} : Good i x l → P.enter i l c → Inv i x c x
  work {i x₀ c x c' x'} : Inv i x₀ c x → P.work i c x c' x' → Inv i x₀ c' x'
  /-- What the thread inside does, the others stand. -/
  stands {i x₀ c x c' x' j l} : Inv i x₀ c x → P.work i c x c' x' → Good j x l → Good j x' l
  leave {i x₀ c x l} : Inv i x₀ c x → P.leave i c l → Good i x l

/-- What is shown apart holds together. -/
theorem Rules.and {P : Program ι S L C} {Good Good' : ι → S → L → Prop} {Inv Inv' : ι → S → C → S → Prop}
    (h : Rules P Good Inv) (h' : Rules P Good' Inv') :
    Rules P (fun i x l => Good i x l ∧ Good' i x l) fun i x₀ c x => Inv i x₀ c x ∧ Inv' i x₀ c x where
  roam hgood hroam := ⟨h.roam hgood.1 hroam, h'.roam hgood.2 hroam⟩
  enter hgood henter := ⟨h.enter hgood.1 henter, h'.enter hgood.2 henter⟩
  work hinv hwork := ⟨h.work hinv.1 hwork, h'.work hinv.2 hwork⟩
  stands hinv hwork hgood := ⟨h.stands hinv.1 hwork hgood.1, h'.stands hinv.2 hwork hgood.2⟩
  leave hinv hleave := ⟨h.leave hinv.1 hleave, h'.leave hinv.2 hleave⟩

/-- A thread that has had its turn stays as it left. -/
structure OneTurn (P : Program ι S L C) (Done : L → Prop) : Prop where
  stays {i x l l'} : Done l → P.roam i x l l' → l' = l
  shut {i l c} : Done l → ¬ P.enter i l c
  early {i x l l'} : ¬ Done l → P.roam i x l l' → ¬ Done l'
  done {i c l} : P.leave i c l → Done l

/-! ### What holds then -/

variable {Good : ι → S → L → Prop} {Inv : ι → S → C → S → Prop} {Done : L → Prop}

theorem outside_of_ne {h : Holder ι S C} {i : ι} (hholder : s.holder = some h) (hne : h.thread ≠ i) :
    s.Outside i := by
  intro h' hh'
  rw [hholder] at hh'
  cases hh'
  exact hne

/-- What holds of a state reached from one where `x₀` was shared. -/
structure Orderly (P : Program ι S L C) (Good : ι → S → L → Prop) (Inv : ι → S → C → S → Prop)
    (x₀ : S) (s : State ι S L C) : Prop where
  outside : ∀ i, s.Outside i → Good i s.shared (s.locals i)
  inside : ∀ h ∈ s.holder, Inv h.thread h.before h.now s.shared
  taken : ∀ turn ∈ s.turns,
    Inv turn.thread turn.before turn.ended turn.after ∧
      P.leave turn.thread turn.ended turn.left
  chain : Chain x₀ s.turns s.settled

theorem orderly_start {locals : ι → L} (h : ∀ i, Good i x (locals i)) :
    Orderly P Good Inv x { shared := x, locals } :=
  ⟨fun i _ => h i, nofun, nofun, rfl⟩

/-- A thread is done exactly if it has had its turn; the one inside stands where it took the lock. -/
structure Ledger (P : Program ι S L C) (Done : L → Prop) (s : State ι S L C) : Prop where
  done : ∀ i, Done (s.locals i) → ∃ turn ∈ s.turns, turn.thread = i
  left : ∀ turn ∈ s.turns, s.locals turn.thread = turn.left ∧ Done turn.left ∧ s.Outside turn.thread
  inside : ∀ h ∈ s.holder, ∃ c, P.enter h.thread (s.locals h.thread) c

theorem ledger_start {locals : ι → L} (h : ∀ i, ¬ Done (locals i)) :
    Ledger P Done ({ shared := x, locals } : State ι S L C) :=
  ⟨fun i hi => absurd hi (h i), nofun, nofun⟩

/-! ### Runs -/

variable [DecidableEq ι]

inductive Step (P : Program ι S L C) : State ι S L C → State ι S L C → Prop
  | roam {s : State ι S L C} {i : ι} {l : L} : s.Outside i → P.roam i s.shared (s.locals i) l →
    Step P s { s with locals := Function.update s.locals i l }
  | enter {s : State ι S L C} {i : ι} {c : C} : s.holder = none → P.enter i (s.locals i) c →
    Step P s { s with holder := some ⟨i, c, s.shared⟩ }
  | work {s : State ι S L C} {h : Holder ι S C} {c : C} {x : S} : s.holder = some h →
    P.work h.thread h.now s.shared c x →
    Step P s { s with shared := x, holder := some { h with now := c } }
  | leave {s : State ι S L C} {h : Holder ι S C} {l : L} : s.holder = some h →
    P.leave h.thread h.now l →
    Step P s
      { s with
        locals := Function.update s.locals h.thread l
        holder := none
        turns := s.turns ++ [⟨h.thread, h.now, l, h.before, s.shared⟩] }

inductive Reached (P : Program ι S L C) (s₀ : State ι S L C) : State ι S L C → Prop
  | refl : Reached P s₀ s₀
  | tail {s s' : State ι S L C} : Reached P s₀ s → Step P s s' → Reached P s₀ s'

/-- What a thread outside can do while no other does anything. -/
theorem Reached.roams {i : ι} {l : L} (h : Reached P s₀ s) (houtside : s.Outside i)
    (hroam : Relation.ReflTransGen (P.roam i s.shared) (s.locals i) l) :
    Reached P s₀ { s with locals := Function.update s.locals i l } := by
  induction hroam with
  | refl =>
    rw [Function.update_eq_self]
    exact h
  | tail _ hroam ih => simpa using ih.tail (.roam houtside (by simpa using hroam))

/-- What the thread inside can do while no other does anything. -/
theorem Reached.works {holder : Holder ι S C} {c : C} (h : Reached P s₀ s)
    (hholder : s.holder = some holder)
    (hwork : Relation.ReflTransGen (fun p q : C × S => P.work holder.thread p.1 p.2 q.1 q.2)
      (holder.now, s.shared) (c, x)) :
    Reached P s₀ { s with shared := x, holder := some { holder with now := c } } := by
  suffices ∀ q, Relation.ReflTransGen (fun p q : C × S => P.work holder.thread p.1 p.2 q.1 q.2)
      (holder.now, s.shared) q →
      Reached P s₀ { s with shared := q.2, holder := some { holder with now := q.1 } } from this _ hwork
  intro q hq
  induction hq with
  | refl => simpa [← hholder] using h
  | @tail p q _ hwork ih => exact ih.tail (.work (h := { holder with now := p.1 }) rfl hwork)

theorem Rules.step (hrules : Rules P Good Inv) (h : Orderly P Good Inv x s) (hstep : Step P s s') :
    Orderly P Good Inv x s' := by
  cases hstep with
  | @roam i l houtside hroam =>
    refine { h with outside := fun j hj => ?_ }
    dsimp only
    by_cases hji : j = i
    · subst hji
      rw [Function.update_self]
      exact hrules.roam (h.outside j houtside) hroam
    · rw [Function.update_of_ne hji]
      exact h.outside j hj
  | @enter i c hfree henter =>
    have hall (j : ι) : s.Outside j := by simp [State.Outside, hfree]
    refine ⟨fun j _ => h.outside j (hall j), fun holder hholder => ?_, h.taken, ?_⟩
    · cases hholder
      exact hrules.enter (h.outside i (hall i)) henter
    · simpa [State.settled, hfree] using h.chain
  | @work holder c x' hholder hwork =>
    have hinv := h.inside holder hholder
    refine ⟨fun j hj => ?_, fun holder' hholder' => ?_, h.taken, ?_⟩
    · have hne : holder.thread ≠ j := hj { holder with now := c } rfl
      exact hrules.stands hinv hwork (h.outside j (outside_of_ne hholder hne))
    · cases hholder'
      exact hrules.work hinv hwork
    · simpa [State.settled, hholder] using h.chain
  | @leave holder l hholder hleave =>
    have hinv := h.inside holder hholder
    refine ⟨fun j _ => ?_, nofun, fun turn hturn => ?_, ?_⟩
    · dsimp only
      by_cases hj : j = holder.thread
      · subst hj
        rw [Function.update_self]
        exact hrules.leave hinv hleave
      · rw [Function.update_of_ne hj]
        exact h.outside j (outside_of_ne hholder (Ne.symm hj))
    · rcases List.mem_append.mp hturn with hturn | hturn
      · exact h.taken turn hturn
      · rw [List.mem_singleton.mp hturn]
        exact ⟨hinv, hleave⟩
    · refine chain_append.mpr ⟨holder.before, ?_, rfl, rfl⟩
      simpa [State.settled, hholder] using h.chain

/-- **Turns are taken one after another**, whatever the threads outside do meanwhile. -/
theorem Rules.reached (hrules : Rules P Good Inv) (h₀ : Orderly P Good Inv x s₀)
    (h : Reached P s₀ s) : Orderly P Good Inv x s := by
  induction h with
  | refl => exact h₀
  | tail _ hstep ih => exact hrules.step ih hstep

theorem OneTurn.step (hone : OneTurn P Done) (h : Ledger P Done s) (hstep : Step P s s') :
    Ledger P Done s' := by
  cases hstep with
  | @roam i l houtside hroam =>
    have hdone : Done (s.locals i) → l = s.locals i := fun hd => hone.stays hd hroam
    refine ⟨fun j hj => ?_, fun turn hturn => ?_, fun holder hholder => ?_⟩
    · dsimp only at hj
      by_cases hji : j = i
      · subst hji
        rw [Function.update_self] at hj
        by_cases hd : Done (s.locals j)
        · exact h.done j hd
        · exact absurd hj (hone.early hd hroam)
      · rw [Function.update_of_ne hji] at hj
        exact h.done j hj
    · obtain ⟨hlocal, hd, hout⟩ := h.left turn hturn
      refine ⟨?_, hd, hout⟩
      dsimp only
      by_cases hti : turn.thread = i
      · rw [hti, Function.update_self, hdone (hti ▸ hlocal ▸ hd), ← hti, hlocal]
      · rw [Function.update_of_ne hti, hlocal]
    · dsimp only
      rw [Function.update_of_ne (houtside holder hholder)]
      exact h.inside holder hholder
  | @enter i c hfree henter =>
    have hnot : ¬ Done (s.locals i) := fun hd => hone.shut hd henter
    refine ⟨h.done, fun turn hturn => ?_, fun holder hholder => ?_⟩
    · obtain ⟨hlocal, hd, _⟩ := h.left turn hturn
      refine ⟨hlocal, hd, fun holder hholder => ?_⟩
      cases hholder
      rintro rfl
      exact hnot (hlocal ▸ hd)
    · cases hholder
      exact ⟨c, henter⟩
  | @work holder c x' hholder hwork =>
    refine ⟨h.done, fun turn hturn => ?_, fun holder' hholder' => ?_⟩
    · obtain ⟨hlocal, hd, hout⟩ := h.left turn hturn
      refine ⟨hlocal, hd, fun holder' hholder' => ?_⟩
      cases hholder'
      exact hout holder hholder
    · cases hholder'
      exact h.inside holder hholder
  | @leave holder l hholder hleave =>
    refine ⟨fun j hj => ?_, fun turn hturn => ?_, nofun⟩
    · by_cases hji : j = holder.thread
      · exact ⟨_, List.mem_append_right _ (List.mem_singleton.mpr rfl), hji.symm⟩
      · dsimp only at hj
        rw [Function.update_of_ne hji] at hj
        obtain ⟨turn, hturn, hthread⟩ := h.done j hj
        exact ⟨turn, List.mem_append_left _ hturn, hthread⟩
    · rcases List.mem_append.mp hturn with hturn | hturn
      · obtain ⟨hlocal, hd, hout⟩ := h.left turn hturn
        refine ⟨?_, hd, nofun⟩
        dsimp only
        rw [Function.update_of_ne (hout holder hholder).symm, hlocal]
      · rw [List.mem_singleton.mp hturn]
        exact ⟨Function.update_self .., hone.done hleave, nofun⟩

theorem OneTurn.reached (hone : OneTurn P Done) (h₀ : Ledger P Done s₀) (h : Reached P s₀ s) :
    Ledger P Done s := by
  induction h with
  | refl => exact h₀
  | tail _ hstep ih => exact hone.step ih hstep

/-! ### What a run passes by -/

/-- A run of `R` from `s₀`, with what was in view in each of its states. -/
inductive Passing {τ : Type} (R : State ι S L C → State ι S L C → Prop) (view : State ι S L C → τ)
    (s₀ : State ι S L C) : List τ → State ι S L C → Prop
  | refl : Passing R view s₀ [view s₀] s₀
  | tail {seen : List τ} {s s' : State ι S L C} : Passing R view s₀ seen s → R s s' →
    Passing R view s₀ (seen ++ [view s']) s'

section

variable {τ : Type} {R : State ι S L C → State ι S L C → Prop} {view : State ι S L C → τ}
  {seen : List τ}

omit [DecidableEq ι]

theorem Passing.mem_seen (h : Passing R view s₀ seen s) : view s ∈ seen := by
  cases h <;> simp

/-- What every step keeps of what has been seen and of the state, a run keeps. -/
theorem Passing.keeps {I : List τ → State ι S L C → Prop} (h : Passing R view s₀ seen s)
    (h₀ : I [view s₀] s₀)
    (hstep : ∀ {seen s s'}, view s ∈ seen → I seen s → R s s' → I (seen ++ [view s']) s') :
    I seen s := by
  induction h with
  | refl => exact h₀
  | tail h hs ih => exact hstep h.mem_seen ih hs

end

theorem Reached.passing {τ : Type} (h : Reached P s₀ s) (view : State ι S L C → τ) :
    ∃ seen, Passing (Step P) view s₀ seen s := by
  induction h with
  | refl => exact ⟨_, .refl⟩
  | tail _ hstep ih =>
    obtain ⟨seen, hseen⟩ := ih
    exact ⟨_, hseen.tail hstep⟩

/-- What a thread outside can do while no other does anything, in a run that allows it. -/
theorem Passing.roams {τ : Type} {R : State ι S L C → State ι S L C → Prop} {view : State ι S L C → τ}
    {seen : List τ} {i : ι} {l : L} (h : Passing R view s₀ seen s)
    (hR : ∀ locals l', P.roam i s.shared (locals i) l' →
      R { s with locals } { s with locals := Function.update locals i l' })
    (hroam : Relation.ReflTransGen (P.roam i s.shared) (s.locals i) l) :
    ∃ seen', Passing R view s₀ seen' { s with locals := Function.update s.locals i l } := by
  induction hroam with
  | refl =>
    rw [Function.update_eq_self]
    exact ⟨seen, h⟩
  | tail _ hroam ih =>
    obtain ⟨seen', hseen⟩ := ih
    have hstep := hR (Function.update s.locals i _) _ (by rw [Function.update_self]; exact hroam)
    rw [Function.update_idem] at hstep
    exact ⟨_, hseen.tail hstep⟩

/-! ### Runs that end -/

/-- A step that changes something. -/
def Move (P : Program ι S L C) (s s' : State ι S L C) : Prop := Step P s s' ∧ s' ≠ s

/-- Whatever a thread does that changes anything lowers its rank. One that is not over can do something, if
only take the lock; the one inside always can. -/
structure Ends {α : Type} [Preorder α] (P : Program ι S L C) (Good : ι → S → L → Prop)
    (Inv : ι → S → C → S → Prop) (Over : L → Prop) (outside : L → α) (inside : C → α) : Prop where
  roam {i x l l'} : Good i x l → P.roam i x l l' → l' ≠ l → outside l' < outside l
  enter {i l c} : P.enter i l c → inside c < outside l
  work {i x₀ c x c' x'} : Inv i x₀ c x → P.work i c x c' x' → (c', x') ≠ (c, x) → inside c' < inside c
  leave {i c l} : P.leave i c l → outside l < inside c
  goes {i x l} : Good i x l → ¬ Over l → (∃ l', P.roam i x l l' ∧ l' ≠ l) ∨ ∃ c, P.enter i l c
  proceeds {i x₀ c x} : Inv i x₀ c x →
    (∃ c' x', P.work i c x c' x' ∧ (c', x') ≠ (c, x)) ∨ ∃ l, P.leave i c l

section

variable {α : Type} {outside : L → α} {inside : C → α}

/-- What each thread has left to do. -/
def State.rank (outside : L → α) (inside : C → α) (s : State ι S L C) (i : ι) : α :=
  match s.holder with
  | none => outside (s.locals i)
  | some h => if h.thread = i then inside h.now else outside (s.locals i)

theorem State.rank_of_outside {i : ι} (h : s.Outside i) :
    s.rank outside inside i = outside (s.locals i) := by
  unfold State.rank
  split
  · rfl
  · rename_i holder hholder
    rw [if_neg (h holder hholder)]

variable [Preorder α]

/-- A state in which a thread has less to do, and the others as much. -/
theorem State.rank_lt {i : ι} (hi : s'.rank outside inside i < s.rank outside inside i)
    (hne : ∀ j, j ≠ i → s'.rank outside inside j = s.rank outside inside j) :
    s'.rank outside inside < s.rank outside inside := by
  refine Pi.lt_def.mpr ⟨fun j => ?_, i, hi⟩
  by_cases hji : j = i
  · exact hji ▸ hi.le
  · exact (hne j hji).le

theorem Ends.lowers (hends : Ends P Good Inv Done outside inside) (h : Orderly P Good Inv x s)
    (hmove : Move P s s') : s'.rank outside inside < s.rank outside inside := by
  obtain ⟨hstep, hchanged⟩ := hmove
  cases hstep with
  | @roam i l houtside hroam =>
    have hne : l ≠ s.locals i := by
      rintro rfl
      exact hchanged (by rw [Function.update_eq_self])
    have houtside' : State.Outside { s with locals := Function.update s.locals i l } i := houtside
    refine State.rank_lt (i := i) ?_ fun j hj => ?_
    · rw [State.rank_of_outside houtside', State.rank_of_outside houtside]
      simpa using hends.roam (h.outside i houtside) hroam hne
    · simp only [State.rank, Function.update_of_ne hj]
  | @enter i c hfree henter =>
    refine State.rank_lt (i := i) ?_ fun j hj => ?_
    · simpa [State.rank, hfree] using hends.enter henter
    · simp [State.rank, hfree, Ne.symm hj]
  | @work holder c x' hholder hwork =>
    have hne : (c, x') ≠ (holder.now, s.shared) := by
      intro heq
      cases heq
      exact hchanged (by rw [← hholder])
    refine State.rank_lt (i := holder.thread) ?_ fun j hj => ?_
    · simpa [State.rank, hholder] using hends.work (h.inside holder hholder) hwork hne
    · simp [State.rank, hholder, Ne.symm hj]
  | @leave holder l hholder hleave =>
    refine State.rank_lt (i := holder.thread) ?_ fun j hj => ?_
    · simpa [State.rank, hholder] using hends.leave hleave
    · simp [State.rank, hholder, hj, Ne.symm hj]

/-- **No run goes on for ever.** -/
theorem Ends.acc [Finite ι] [WellFoundedLT α] (hends : Ends P Good Inv Done outside inside)
    (hrules : Rules P Good Inv) (h : Orderly P Good Inv x s) : Acc (fun s' s => Move P s s') s := by
  induction hrank : s.rank outside inside using WellFoundedLT.induction generalizing s with
  | ind rank ih =>
    subst hrank
    refine ⟨_, fun s' hmove => ih _ (hends.lowers h hmove) (hrules.step h hmove.1) rfl⟩

/-- **A run that has come to a stop is over**: the lock is free, and every thread has come to its end. -/
theorem Ends.over (hends : Ends P Good Inv Done outside inside) (h : Orderly P Good Inv x s)
    (hstop : ∀ s', ¬ Move P s s') : s.holder = none ∧ ∀ i, Done (s.locals i) := by
  have hfree : s.holder = none := by
    cases hholder : s.holder with
    | none => rfl
    | some holder =>
      exfalso
      rcases hends.proceeds (h.inside holder hholder) with ⟨c, x', hwork, hne⟩ | ⟨l, hleave⟩
      · refine hstop _ ⟨.work hholder hwork, fun heq => hne ?_⟩
        have hshared := congrArg State.shared heq
        have hnow := congrArg State.holder heq
        rw [hholder] at hnow
        simp only [Option.some.injEq] at hnow
        rw [← congrArg Holder.now hnow, ← hshared]
      · refine hstop _ ⟨.leave hholder hleave, fun heq => ?_⟩
        have hnone := congrArg State.holder heq
        rw [hholder] at hnone
        cases hnone
  refine ⟨hfree, fun i => by_contra fun hnot => ?_⟩
  have houtside : s.Outside i := by simp [State.Outside, hfree]
  rcases hends.goes (h.outside i houtside) hnot with ⟨l, hroam, hne⟩ | ⟨c, henter⟩
  · refine hstop _ ⟨.roam houtside hroam, fun heq => hne ?_⟩
    simpa using congrFun (congrArg State.locals heq) i
  · refine hstop _ ⟨.enter hfree henter, fun heq => ?_⟩
    have hsome := congrArg State.holder heq
    rw [hfree] at hsome
    cases hsome

end

/-! ### Threads that never take the lock -/

variable {κ K : Type} {look : κ → S → K → K → Prop}

/-- The program with threads `κ` beside it that only look at what is shared. -/
def Program.beside (P : Program ι S L C) (look : κ → S → K → K → Prop) :
    Program (ι ⊕ κ) S (L ⊕ K) C where
  roam
    | .inl i, x, .inl l, .inl l' => P.roam i x l l'
    | .inr k, x, .inr l, .inr l' => look k x l l'
    | _, _, _, _ => False
  enter
    | .inl i, .inl l, c => P.enter i l c
    | _, _, _ => False
  work
    | .inl i, c, x, c', x' => P.work i c x c' x'
    | .inr _, _, _, _, _ => False
  leave
    | .inl i, c, .inl l => P.leave i c l
    | _, _, _ => False

def Holder.beside (κ : Type) (h : Holder ι S C) : Holder (ι ⊕ κ) S C := ⟨.inl h.thread, h.now, h.before⟩

def Turn.beside (κ K : Type) (turn : Turn ι S L C) : Turn (ι ⊕ κ) S (L ⊕ K) C :=
  ⟨.inl turn.thread, turn.ended, .inl turn.left, turn.before, turn.after⟩

/-- A state with the others as they are beside it. -/
def State.beside (s : State ι S L C) (others : κ → K) : State (ι ⊕ κ) S (L ⊕ K) C where
  shared := s.shared
  locals := Sum.map s.locals others
  holder := s.holder.map (Holder.beside κ)
  turns := s.turns.map (Turn.beside κ K)

theorem map_update_inl [DecidableEq κ] (locals : ι → L) (others : κ → K) (i : ι) (l : L) :
    Sum.map (Function.update locals i l) others =
      Function.update (Sum.map locals others) (.inl i) (.inl l) := by
  funext j
  cases j with
  | inl j =>
    by_cases h : j = i
    · subst h
      simp
    · rw [Function.update_of_ne (by simpa using h), Sum.map_inl, Sum.map_inl, Function.update_of_ne h]
  | inr k => simp

theorem map_update_inr [DecidableEq κ] (locals : ι → L) (others : κ → K) (k : κ) (l : K) :
    Sum.map locals (Function.update others k l) =
      Function.update (Sum.map locals others) (.inr k) (.inr l) := by
  funext j
  cases j with
  | inl i => simp
  | inr k' =>
    by_cases h : k' = k
    · subst h
      simp
    · rw [Function.update_of_ne (by simpa using h), Sum.map_inr, Sum.map_inr, Function.update_of_ne h]

omit [DecidableEq ι] in
theorem State.Outside.beside {i : ι} {others : κ → K} (h : s.Outside i) :
    (s.beside others).Outside (.inl i) := by
  intro holder hholder heq
  obtain ⟨holder', hholder', rfl⟩ := Option.map_eq_some_iff.mp hholder
  exact h holder' hholder' (Sum.inl.inj heq)

omit [DecidableEq ι] in
theorem State.outside_beside (s : State ι S L C) (others : κ → K) (k : κ) :
    (s.beside others).Outside (.inr k) := by
  intro holder hholder heq
  obtain ⟨holder', -, rfl⟩ := Option.map_eq_some_iff.mp hholder
  cases heq

/-- A step of the program is one beside any others. -/
theorem Step.beside [DecidableEq κ] (h : Step P s s') (others : κ → K) :
    Step (P.beside look) (s.beside others) (s'.beside others) := by
  cases h with
  | @roam i l houtside hroam =>
    have hbeside : (P.beside look).roam (.inl i) s.shared (.inl (s.locals i)) (.inl l) := hroam
    have hstep : Step (P.beside look) (s.beside others) _ := .roam houtside.beside hbeside
    simpa [State.beside, map_update_inl] using hstep
  | @enter i c hfree henter =>
    have hnone : (s.beside others).holder = none := by simp [State.beside, hfree]
    have hbeside : (P.beside look).enter (.inl i) (.inl (s.locals i)) c := henter
    exact .enter hnone hbeside
  | @work holder c x hholder hwork =>
    have hsome : (s.beside others).holder = some (holder.beside κ) := by simp [State.beside, hholder]
    have hbeside : (P.beside look).work (.inl holder.thread) holder.now s.shared c x := hwork
    exact .work hsome hbeside
  | @leave holder l hholder hleave =>
    have hsome : (s.beside others).holder = some (holder.beside κ) := by simp [State.beside, hholder]
    have hbeside : (P.beside look).leave (.inl holder.thread) holder.now (.inl l) := hleave
    have hstep : Step (P.beside look) (s.beside others) _ := .leave hsome hbeside
    simpa [State.beside, map_update_inl, Holder.beside, Turn.beside] using hstep

theorem Reached.beside [DecidableEq κ] (h : Reached P s₀ s) (others : κ → K) :
    Reached (P.beside look) (s₀.beside others) (s.beside others) := by
  induction h with
  | refl => exact .refl
  | tail _ hstep ih => exact ih.tail (hstep.beside others)

/-- What a thread that only looks can do while no other does anything. -/
theorem Reached.looks_beside [DecidableEq κ] {u : State (ι ⊕ κ) S (L ⊕ K) C} {others : κ → K}
    (h : Reached (P.beside look) u (s.beside others)) {k : κ} {l : K}
    (hlook : Relation.ReflTransGen (look k s.shared) (others k) l) :
    Reached (P.beside look) u (s.beside (Function.update others k l)) := by
  have hroam : Relation.ReflTransGen ((P.beside look).roam (.inr k) s.shared) (.inr (others k))
      (.inr l) :=
    hlook.lift Sum.inr fun _ _ hl => hl
  have hrun := h.roams (s.outside_beside others k) hroam
  simpa [State.beside, map_update_inr] using hrun

section

variable {GoodBeside : κ → S → K → Prop} {Over : K → Prop}

omit [DecidableEq ι]

/-- What holds of a thread of the program, or of one beside it. -/
def goodBeside (Good : ι → S → L → Prop) (GoodBeside : κ → S → K → Prop) :
    ι ⊕ κ → S → L ⊕ K → Prop
  | .inl i, x, .inl l => Good i x l
  | .inr k, x, .inr l => GoodBeside k x l
  | _, _, _ => False

def invBeside (κ : Type) (Inv : ι → S → C → S → Prop) : ι ⊕ κ → S → C → S → Prop
  | .inl i, x₀, c, x => Inv i x₀ c x
  | .inr _, _, _, _ => False

theorem invBeside_iff {j : ι ⊕ κ} {x₀ : S} {c : C} :
    invBeside κ Inv j x₀ c x ↔ ∃ i, j = .inl i ∧ Inv i x₀ c x := by
  cases j with
  | inl i => exact ⟨fun h => ⟨i, rfl, h⟩, fun ⟨_, heq, h⟩ => Sum.inl.inj heq ▸ h⟩
  | inr k => exact ⟨False.elim, fun ⟨_, heq, _⟩ => nomatch heq⟩

theorem Rules.beside (hrules : Rules P Good Inv)
    (hlook : ∀ {k x l l'}, GoodBeside k x l → look k x l l' → GoodBeside k x l')
    (hstands : ∀ {i x₀ c x c' x' k l}, Inv i x₀ c x → P.work i c x c' x' → GoodBeside k x l →
      GoodBeside k x' l) :
    Rules (P.beside look) (goodBeside Good GoodBeside) (invBeside κ Inv) where
  roam {i x l l'} h hroam := by
    cases i <;> cases l <;> cases l' <;>
      first | exact hrules.roam h hroam | exact hlook h hroam | cases hroam
  enter {i x l c} h henter := by
    cases i <;> cases l <;> first | exact hrules.enter h henter | cases henter
  work {i x₀ c x c' x'} h hwork := by
    cases i with
    | inl i => exact hrules.work h hwork
    | inr k => cases hwork
  stands {i x₀ c x c' x' j l} h hwork hgood := by
    cases i with
    | inr k => cases hwork
    | inl i =>
      cases j <;> cases l <;>
        first | exact hrules.stands h hwork hgood | exact hstands h hwork hgood | cases hgood
  leave {i x₀ c x l} h hleave := by
    cases i <;> cases l <;> first | exact hrules.leave h hleave | cases hleave

theorem Ends.beside {α : Type} [Preorder α] {outside : L → α} {inside : C → α} {rank : K → α}
    (hends : Ends P Good Inv Done outside inside)
    (hlook : ∀ {k x l l'}, GoodBeside k x l → look k x l l' → l' ≠ l → rank l' < rank l)
    (hgoes : ∀ {k x l}, GoodBeside k x l → ¬ Over l → ∃ l', look k x l l' ∧ l' ≠ l) :
    Ends (P.beside look) (goodBeside Good GoodBeside) (invBeside κ Inv) (Sum.elim Done Over)
      (Sum.elim outside rank) inside where
  roam {i x l l'} h hroam hne := by
    cases i <;> cases l <;> cases l' <;>
      first
      | exact hends.roam h hroam fun heq => hne (congrArg Sum.inl heq)
      | exact hlook h hroam fun heq => hne (congrArg Sum.inr heq)
      | cases hroam
  enter {i l c} henter := by
    cases i <;> cases l <;> first | exact hends.enter henter | cases henter
  work {i x₀ c x c' x'} h hwork hne := by
    cases i with
    | inl i => exact hends.work h hwork hne
    | inr k => cases hwork
  leave {i c l} hleave := by
    cases i <;> cases l <;> first | exact hends.leave hleave | cases hleave
  goes {i x l} h hnot := by
    rcases i with i | k <;> rcases l with l | l <;> first | cases h | skip
    · rcases hends.goes h hnot with ⟨l', hroam, hne⟩ | henter
      · exact .inl ⟨.inl l', hroam, fun heq => hne (Sum.inl.inj heq)⟩
      · exact .inr henter
    · obtain ⟨l', hl, hne⟩ := hgoes h hnot
      exact .inl ⟨.inr l', hl, fun heq => hne (Sum.inr.inj heq)⟩
  proceeds {i x₀ c x} h := by
    cases i with
    | inr k => cases h
    | inl i =>
      rcases hends.proceeds h with hwork | ⟨l, hleave⟩
      · exact .inl hwork
      · exact .inr ⟨.inl l, hleave⟩

end

theorem Reached.trans {s'' : State ι S L C} (h : Reached P s s') (h' : Reached P s' s'') :
    Reached P s s'' := by
  induction h' with
  | refl => exact h
  | tail _ hstep ih => exact ih.tail hstep

end Critical
