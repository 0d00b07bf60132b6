import KeelsonDocker.FollowerThreads
import Mathlib.Data.List.Induction

/-!
# What `stop` unblocks

`stop` collects the closers once. A thread that has passed its test of the flag by then, and has not
registered the closer of its stream, is not reached: it parks in a read that nothing ends. These threads,
and those whose closer another thread of the same name has replaced, are all that `stop` can miss
(`FollowerThreads.stop_unblocks_iff`).
-/

namespace KeelsonDocker

namespace FollowerThreads

variable {globs : List String} {s : FollowerThreads} {name : String} {n : Nat} {place : FollowPlace}

/-- `stop` has called the closers it collected. -/
def Closed (s : FollowerThreads) : Prop := s.stopper = .closing [] ∨ s.stopper = .returned

/-- No thread is parked in a read of a stream whose closer was not called. -/
def Unblocked (s : FollowerThreads) : Prop := ∀ name n, (name, .reading n) ∈ s.threads → n ∈ s.closed

/-- A thread at this place reads a stream whose closer is not registered, or has tested the flag and may come
to read one. -/
def Missed (s : FollowerThreads) : FollowPlace → Prop
  | .opening | .opened _ => True
  | .reading n | .emitting n => .of n ∉ s.closers
  | _ => False

/-! ### What one step changes -/

theorem run_append (before after : List ThreadEvent) :
    run globs (before ++ after) = after.foldl (step globs) (run globs before) :=
  List.foldl_append

theorem run_concat (events : List ThreadEvent) (e : ThreadEvent) :
    run globs (events ++ [e]) = (run globs events).step globs e :=
  run_append events [e]

variable (globs) in
/-- The scan leaves the flag and what `stop` does alone. -/
theorem scanStep_frame (listed : Option (List String)) :
    (s.scanStep globs listed).stopped = s.stopped ∧
      (s.scanStep globs listed).stopper = s.stopper ∧
      (s.scanStep globs listed).closed = s.closed ∧
      (s.scanStep globs listed).opened = s.opened := by
  unfold scanStep
  split
  all_goals try exact ⟨rfl, rfl, rfl, rfl⟩
  · split <;> exact ⟨rfl, rfl, rfl, rfl⟩
  · split <;> exact ⟨rfl, rfl, rfl, rfl⟩

variable (globs) in
/-- The scan starts threads, one at a time. -/
theorem scanStep_threads (listed : Option (List String)) :
    (s.scanStep globs listed).threads = s.threads ∨
      ∃ name, (s.scanStep globs listed).threads = s.threads ++ [(name, .head)] := by
  unfold scanStep
  split
  all_goals try exact .inl rfl
  · split <;> exact .inl rfl
  · split
    · exact .inr ⟨_, rfl⟩
    · exact .inl rfl

variable (name place) in
theorem followStep_frame (ending : CallEnd) :
    (s.followStep name ending place).1.stopped = s.stopped ∧
      (s.followStep name ending place).1.stopper = s.stopper ∧
      (s.followStep name ending place).1.closed = s.closed ∧
      (s.followStep name ending place).1.scan = s.scan := by
  cases place with
  | opening => cases ending <;> exact ⟨rfl, rfl, rfl, rfl⟩
  | reading n => cases ending <;> exact ⟨rfl, rfl, rfl, rfl⟩
  | _ => exact ⟨rfl, rfl, rfl, rfl⟩

theorem stopStep_frame : s.stopStep.threads = s.threads ∧ s.stopStep.followers = s.followers ∧
    s.stopStep.opened = s.opened ∧ s.stopStep.scan = s.scan := by
  unfold stopStep
  split
  all_goals try exact ⟨rfl, rfl, rfl, rfl⟩

/-- A step of a follower, seen from outside. -/
theorem step_follow {i : Nat} (ending : CallEnd) (h : s.threads[i]? = some (name, place)) :
    s.step globs (.follow i ending) = { (s.followStep name ending place).1 with
      threads := s.threads.set i (name, (s.followStep name ending place).2) } := by
  simp only [step, h]

theorem step_follow_none {i : Nat} (ending : CallEnd) (h : s.threads[i]? = none) :
    s.step globs (.follow i ending) = s := by
  simp only [step, h]

variable (globs) in
/-- The flag, and what becomes of the closers, is up to the thread that stops. -/
theorem step_frame {e : ThreadEvent} (he : e ≠ .stop) : (s.step globs e).stopped = s.stopped ∧
    (s.step globs e).stopper = s.stopper ∧ (s.step globs e).closed = s.closed := by
  cases e with
  | stop => exact absurd rfl he
  | scan listed =>
    obtain ⟨hstopped, hstopper, hclosed, _⟩ := s.scanStep_frame globs listed
    exact ⟨hstopped, hstopper, hclosed⟩
  | follow i ending =>
    cases hi : s.threads[i]? with
    | none =>
      rw [step_follow_none ending hi]
      exact ⟨rfl, rfl, rfl⟩
    | some thread =>
      obtain ⟨name, place⟩ := thread
      obtain ⟨hstopped, hstopper, hclosed, _⟩ :=
        s.followStep_frame name place ending
      rw [step_follow ending hi]
      exact ⟨hstopped, hstopper, hclosed⟩

/-- Where the threads are after a step: where they were, at their beginning, or one step on. -/
theorem mem_threads_step {e : ThreadEvent} (h : (name, place) ∈ (s.step globs e).threads) :
    (name, place) ∈ s.threads ∨ place = .head ∨
      ∃ before ending, (name, before) ∈ s.threads ∧ place = (s.followStep name ending before).2 := by
  cases e with
  | stop =>
    change (name, place) ∈ s.stopStep.threads at h
    rw [stopStep_frame.1] at h
    exact .inl h
  | scan listed =>
    change (name, place) ∈ (s.scanStep globs listed).threads at h
    obtain heq | ⟨new, heq⟩ := s.scanStep_threads globs listed
    · rw [heq] at h
      exact .inl h
    · rw [heq, List.mem_append, List.mem_singleton, Prod.mk.injEq] at h
      obtain h | ⟨_, h⟩ := h
      · exact .inl h
      · exact .inr (.inl h)
  | follow i ending =>
    cases hi : s.threads[i]? with
    | none =>
      rw [step_follow_none ending hi] at h
      exact .inl h
    | some thread =>
      obtain ⟨other, before⟩ := thread
      rw [step_follow ending hi] at h
      obtain h | h := List.mem_or_eq_of_mem_set h
      · exact .inl h
      · cases h
        exact .inr (.inr ⟨before, ending, List.mem_of_getElem? hi, rfl⟩)

/-! ### After the closers were collected -/

/-- The closer of the stream was called, or is about to be. -/
def Collected (s : FollowerThreads) (n : Nat) : Prop :=
  n ∈ s.closed ∨ ∃ closers, s.stopper = .closing closers ∧ .of n ∈ closers

/-- `stop` has collected the closers. -/
def HasCollected (s : FollowerThreads) : Prop :=
  (∃ closers, s.stopper = .closing closers) ∨ s.stopper = .returned

/-- A thread at this place opens no stream any more, and reads none that was not collected. -/
def Caught (s : FollowerThreads) : FollowPlace → Prop
  | .opening | .opened _ => False
  | .reading n | .emitting n => s.Collected n
  | _ => True

/-- `stop` has collected the closers, and missed nothing. -/
structure Stopping (s : FollowerThreads) : Prop where
  stopped : s.stopped = true
  collected : s.HasCollected
  caught : ∀ name place, (name, place) ∈ s.threads → s.Caught place

variable (globs) in
/-- The stop goes on: its flag stays, it does not go back, and it calls what it has collected. -/
theorem stop_goes_on (e : ThreadEvent) (hstopped : s.stopped = true) (hcollected : s.HasCollected) :
    (s.step globs e).stopped = true ∧ (s.step globs e).HasCollected ∧
      ∀ n, s.Collected n → (s.step globs e).Collected n := by
  obtain rfl | he := eq_or_ne e .stop
  · obtain ⟨closers, hstopper⟩ | hstopper := hcollected
    · cases closers with
      | nil =>
        have hstep : s.step globs .stop = { s with stopper := .returned } := by
          simp only [step, stopStep, hstopper]
        rw [hstep]
        refine ⟨hstopped, .inr rfl, fun n hn => ?_⟩
        obtain hn | ⟨_, hclosers, hn⟩ := hn
        · exact .inl hn
        · rw [hstopper] at hclosers
          cases hclosers
          cases hn
      | cons closer closers =>
        have hstep : s.step globs .stop = { s.close closer with stopper := .closing closers } := by
          simp only [step, stopStep, hstopper]
        rw [hstep]
        refine ⟨hstopped, .inl ⟨closers, rfl⟩, fun n hn => ?_⟩
        obtain hn | ⟨_, hclosers, hn⟩ := hn
        · exact .inl (List.mem_append_left _ hn)
        · rw [hstopper] at hclosers
          cases hclosers
          obtain rfl | hn := List.mem_cons.mp hn
          · exact .inl (List.mem_append_right _ List.mem_cons_self)
          · exact .inr ⟨closers, rfl, hn⟩
    · have hstep : s.step globs .stop = s := by simp only [step, stopStep, hstopper]
      rw [hstep]
      exact ⟨hstopped, .inr hstopper, fun _ hn => hn⟩
  · obtain ⟨h, hstopper, hclosed⟩ := step_frame globs he
    refine ⟨h.trans hstopped, ?_, fun n hn => ?_⟩
    · unfold HasCollected
      rw [hstopper]
      exact hcollected
    · unfold Collected
      rw [hstopper, hclosed]
      exact hn

/-- Under the flag, a thread that comes to the head of a loop leaves it. -/
theorem Caught.followStep (h : s.Caught place) (hstopped : s.stopped = true) (ending : CallEnd) :
    s.Caught (s.followStep name ending place).2 := by
  cases place with
  | opening => exact h.elim
  | opened n => exact h.elim
  | reading n => cases ending <;> exact trivial
  | emitting n =>
    cases ending with
    | raised => exact trivial
    | returned => exact h
    | exhausted => exact h
  | flushing => cases ending <;> exact trivial
  | asking => cases ending <;> exact trivial
  | head | arrived _ | raised | tried =>
    simp only [FollowerThreads.followStep, hstopped, if_true]
    exact trivial
  | waiting | leaving | done => exact trivial

theorem Caught.mono {s' : FollowerThreads} (h : s.Caught place)
    (hcollected : ∀ n, s.Collected n → s'.Collected n) : s'.Caught place := by
  cases place with
  | reading n => exact hcollected n h
  | emitting n => exact hcollected n h
  | opening => exact h
  | opened n => exact h
  | _ => exact trivial

theorem Stopping.step (h : s.Stopping) (e : ThreadEvent) : (s.step globs e).Stopping := by
  obtain ⟨hstopped, hcollected, hmono⟩ := stop_goes_on globs e h.stopped h.collected
  refine ⟨hstopped, hcollected, fun name place hmem => ?_⟩
  obtain hold | rfl | ⟨before, ending, hold, rfl⟩ := mem_threads_step hmem
  · exact (h.caught name place hold).mono hmono
  · exact trivial
  · exact ((h.caught name before hold).followStep h.stopped ending).mono hmono

theorem Stopping.foldl (h : s.Stopping) (events : List ThreadEvent) :
    (events.foldl (FollowerThreads.step globs) s).Stopping :=
  List.foldlRecOn events _ h fun _ h e _ => h.step e

theorem Stopping.unblocked (h : s.Stopping) (hclosed : s.Closed) : s.Unblocked := by
  intro name n hmem
  obtain hn | ⟨closers, hstopper, hn⟩ := h.caught name _ hmem
  · exact hn
  · obtain hclosed | hclosed := hclosed
    · rw [hstopper] at hclosed
      cases hclosed
      cases hn
    · rw [hstopper] at hclosed
      cases hclosed

/-- The flag is set before anything else is done to stop. -/
theorem stopped_of_ne_idle (events : List ThreadEvent)
    (h : (run globs events).stopper ≠ .idle) : (run globs events).stopped = true := by
  induction events using List.reverseRecOn with
  | nil => exact absurd rfl h
  | append_singleton events e ih =>
    rw [run_concat] at h ⊢
    generalize run globs events = s at h ih
    obtain rfl | he := eq_or_ne e .stop
    · change s.stopStep.stopped = true
      unfold stopStep
      split
      · exact rfl
      all_goals exact ih (by simp [*])
    · obtain ⟨hstopped, hstopper, _⟩ := step_frame globs he
      rw [hstopper] at h
      exact hstopped.trans (ih h)

theorem collect (h : s.stopper = .flagged) :
    s.step globs .stop = { s with stopper := .closing s.closers } := by
  simp only [step, stopStep, h]

/-- Collecting the closers catches every thread that it does not miss. -/
theorem Stopping.collect (hstopped : s.stopped = true) (h : s.stopper = .flagged)
    (hmissed : ∀ name place, (name, place) ∈ s.threads → ¬ s.Missed place) :
    (s.step globs .stop).Stopping := by
  rw [FollowerThreads.collect h]
  refine ⟨hstopped, .inl ⟨_, rfl⟩, fun name place hmem => ?_⟩
  have hnot := hmissed name place hmem
  cases place with
  | opening => exact hnot trivial
  | opened n => exact hnot trivial
  | reading n => exact .inr ⟨_, rfl, not_not.mp hnot⟩
  | emitting n => exact .inr ⟨_, rfl, not_not.mp hnot⟩
  | _ => exact trivial

/-! ### Streams that are not registered yet -/

/-- A stream in hand is one thread's, and no closer of it is registered. -/
structure Fresh (s : FollowerThreads) : Prop where
  opened : ∀ {i : Nat} {name n}, s.threads[i]? = some (name, .opened n) → n < s.opened
  apart : ∀ {i j : Nat} {name name' n}, s.threads[i]? = some (name, .opened n) →
    s.threads[j]? = some (name', .opened n) → i = j
  unregistered : ∀ {i : Nat} {name n}, s.threads[i]? = some (name, .opened n) → .of n ∉ s.closers
  registered : ∀ {n}, .of n ∈ s.closers → n < s.opened

/-- A step that hands out no stream and registers none. -/
theorem Fresh.mono {s' : FollowerThreads} (h : s.Fresh) (hopened : s'.opened = s.opened)
    (hthreads : ∀ {i : Nat} {name n}, s'.threads[i]? = some (name, .opened n) →
      s.threads[i]? = some (name, .opened n))
    (hclosers : ∀ n, .of n ∈ s'.closers → .of n ∈ s.closers) : s'.Fresh where
  opened hi := hopened ▸ h.opened (hthreads hi)
  apart hi hj := h.apart (hthreads hi) (hthreads hj)
  unregistered hi hn := h.unregistered (hthreads hi) (hclosers _ hn)
  registered hn := hopened ▸ h.registered (hclosers _ hn)

theorem getElem?_set_some {α : Type} {l : List α} {i j : Nat} {a b : α}
    (h : (l.set i a)[j]? = some b) : (i = j ∧ b = a) ∨ (i ≠ j ∧ l[j]? = some b) := by
  rw [List.getElem?_set] at h
  split at h
  · rename_i hij
    split at h
    · cases h
      exact .inl ⟨hij, rfl⟩
    · cases h
  · rename_i hij
    exact .inr ⟨hij, h⟩

/-- A thread moves, and has no new stream in hand. -/
theorem Fresh.set {s' : FollowerThreads} {i : Nat} (h : s.Fresh) (hopened : s'.opened = s.opened)
    (hclosers : ∀ n, .of n ∈ s'.closers → .of n ∈ s.closers) (hplace : ∀ n, place ≠ .opened n) :
    Fresh { s' with threads := s.threads.set i (name, place) } := by
  refine h.mono hopened (fun hj => ?_) hclosers
  obtain ⟨_, hj⟩ | ⟨_, hj⟩ := getElem?_set_some hj
  · cases hj
    exact absurd rfl (hplace _)
  · exact hj

/-- The daemon hands a thread its stream. -/
theorem Fresh.hand {i : Nat} (h : s.Fresh) : Fresh { s with
    opened := s.opened + 1, threads := s.threads.set i (name, .opened s.opened) } where
  opened hj := by
    obtain ⟨_, hj⟩ | ⟨_, hj⟩ := getElem?_set_some hj
    · cases hj
      exact Nat.lt_succ_self _
    · exact (h.opened hj).trans (Nat.lt_succ_self _)
  apart hj hk := by
    obtain ⟨hij, heq⟩ | ⟨_, hj⟩ := getElem?_set_some hj
    · obtain ⟨hik, _⟩ | ⟨_, hk⟩ := getElem?_set_some hk
      · exact hij.symm.trans hik
      · cases heq
        exact absurd (h.opened hk) (Nat.lt_irrefl _)
    · obtain ⟨_, hk⟩ | ⟨_, hk⟩ := getElem?_set_some hk
      · cases hk
        exact absurd (h.opened hj) (Nat.lt_irrefl _)
      · exact h.apart hj hk
  unregistered hj hn := by
    obtain ⟨_, hj⟩ | ⟨_, hj⟩ := getElem?_set_some hj
    · cases hj
      exact absurd (h.registered hn) (Nat.lt_irrefl _)
    · exact h.unregistered hj hn
  registered hn := (h.registered hn).trans (Nat.lt_succ_self _)

/-- The thread registers the closer. -/
theorem Fresh.register {i : Nat} (h : s.Fresh) (hi : s.threads[i]? = some (name, .opened n)) :
    Fresh { s with
      followers := Dict.set name (.of n) s.followers
      threads := s.threads.set i (name, .reading n) } where
  opened hj := by
    obtain ⟨_, hj⟩ | ⟨_, hj⟩ := getElem?_set_some hj
    · cases hj
    · exact h.opened hj
  apart hj hk := by
    obtain ⟨_, hj⟩ | ⟨_, hj⟩ := getElem?_set_some hj
    · cases hj
    · obtain ⟨_, hk⟩ | ⟨_, hk⟩ := getElem?_set_some hk
      · cases hk
      · exact h.apart hj hk
  unregistered hj hn := by
    obtain ⟨_, hj⟩ | ⟨hij, hj⟩ := getElem?_set_some hj
    · cases hj
    · obtain hn | hn := Dict.mem_values_set hn
      · cases hn
        exact hij (h.apart hi hj)
      · exact h.unregistered hj hn
  registered hn := by
    obtain hn | hn := Dict.mem_values_set hn
    · cases hn
      exact h.opened hi
    · exact h.registered hn

theorem scanStep_closers (listed : Option (List String))
    (h : .of n ∈ (s.scanStep globs listed).closers) : .of n ∈ s.closers := by
  unfold scanStep at h
  split at h
  all_goals try exact h
  · split at h
    · exact h
    · exact (Dict.mem_values_set h).resolve_left nofun
  · split at h <;> exact h

theorem Fresh.step (h : s.Fresh) (e : ThreadEvent) : (s.step globs e).Fresh := by
  cases e with
  | stop =>
    obtain ⟨hthreads, hfollowers, hopened, _⟩ := s.stopStep_frame
    refine h.mono hopened (fun hi => ?_) fun n hn => ?_
    · exact hthreads ▸ hi
    · exact show _ ∈ s.followers.map Prod.snd from hfollowers ▸ hn
  | scan listed =>
    refine h.mono (s.scanStep_frame globs listed).2.2.2 (fun {i name n} hi => ?_) fun n hn =>
      scanStep_closers listed hn
    change (s.scanStep globs listed).threads[i]? = _ at hi
    obtain heq | ⟨new, heq⟩ := s.scanStep_threads globs listed
    · rwa [heq] at hi
    · rw [heq, List.getElem?_append] at hi
      split at hi
      · exact hi
      · have hmem := List.mem_of_getElem? hi
        cases List.mem_singleton.mp hmem
  | follow i ending =>
    cases hi : s.threads[i]? with
    | none =>
      rw [step_follow_none ending hi]
      exact h
    | some thread =>
      obtain ⟨name, place⟩ := thread
      rw [step_follow ending hi]
      cases place with
      | opening =>
        cases ending with
        | returned => exact h.hand
        | exhausted => exact h.set rfl (fun _ hn => hn) nofun
        | raised => exact h.set rfl (fun _ hn => hn) nofun
      | opened n => exact h.register hi
      | leaving => exact h.set rfl (fun _ hn => Dict.mem_values_pop hn) nofun
      | reading n => cases ending <;> exact h.set rfl (fun _ hn => hn) nofun
      | head | arrived n | raised | tried =>
        refine h.set rfl (fun _ hn => hn) fun _ => ?_
        simp only [followStep]
        split <;> exact nofun
      | emitting n | flushing | asking =>
        refine h.set rfl (fun _ hn => hn) fun _ => ?_
        simp only [followStep]
        split <;> exact nofun
      | waiting | done => exact h.set rfl (fun _ hn => hn) nofun

theorem Fresh.run (events : List ThreadEvent) : (FollowerThreads.run globs events).Fresh :=
  List.foldlRecOn events _ ⟨nofun, nofun, nofun, nofun⟩ fun _ h e _ => h.step e

/-! ### Threads that are missed -/

/-- No closer is called before they are collected. -/
theorem closed_eq_nil (events : List ThreadEvent)
    (h : (run globs events).stopper = .idle ∨ (run globs events).stopper = .flagged) :
    (run globs events).closed = [] := by
  induction events using List.reverseRecOn with
  | nil => rfl
  | append_singleton events e ih =>
    rw [run_concat] at h ⊢
    generalize run globs events = s at h ih
    obtain rfl | he := eq_or_ne e .stop
    · change s.stopStep.stopper = _ ∨ s.stopStep.stopper = _ at h
      cases hs : s.stopper with
      | idle =>
        simp only [step, stopStep, hs]
        exact ih (.inl hs)
      | flagged => simp [stopStep, hs] at h
      | closing closers => cases closers <;> simp [stopStep, hs] at h
      | returned => simp [stopStep, hs] at h
    · obtain ⟨_, hstopper, hclosed⟩ := step_frame globs he
      rw [hstopper] at h
      exact hclosed.trans (ih h)

/-- Nothing comes between the calls of the closers. -/
theorem call_closers {closers : List Closer} (h : s.stopper = .closing closers) :
    (List.replicate closers.length .stop).foldl (step globs) s =
      { s with closed := s.closed ++ closers.flatMap Closer.closes, stopper := .closing [] } := by
  induction closers generalizing s with
  | nil =>
    rw [← h]
    simp
  | cons closer closers ih =>
    have hstep : s.step globs .stop = { s.close closer with stopper := .closing closers } := by
      simp only [step, stopStep, h]
    rw [List.length_cons, List.replicate_succ, List.foldl_cons, hstep, ih rfl]
    simp [close]

theorem mem_closes {closers : List Closer} (h : n ∈ closers.flatMap Closer.closes) :
    .of n ∈ closers := by
  obtain ⟨closer, hmem, hn⟩ := List.mem_flatMap.mp h
  cases closer with
  | placeholder => cases hn
  | of m =>
    cases List.mem_singleton.mp hn
    exact hmem

theorem getElem?_set_of_some {α : Type} {l : List α} {i : Nat} {a b : α} (h : l[i]? = some a) :
    (l.set i b)[i]? = some b :=
  List.getElem?_set_self (List.getElem?_eq_some_iff.mp h).1

variable (globs) in
/-- Left to itself, the thread goes on to park in the read of a stream that is not among the closers
collected. -/
theorem parks {i : Nat} (h : s.Fresh) (hi : s.threads[i]? = some (name, place))
    (hmissed : s.Missed place) : ∃ (events : List ThreadEvent) (n : Nat),
      (name, .reading n) ∈ (events.foldl (step globs) s).threads ∧ .of n ∉ s.closers ∧
      (events.foldl (step globs) s).stopper = s.stopper ∧
      (events.foldl (step globs) s).closed = s.closed := by
  cases place with
  | reading n => exact ⟨[], n, List.mem_of_getElem? hi, hmissed, rfl, rfl⟩
  | emitting n =>
    refine ⟨[.follow i .returned], n, ?_, hmissed, ?_, ?_⟩
    all_goals rw [List.foldl_cons, List.foldl_nil, step_follow _ hi]
    · exact List.mem_of_getElem? (getElem?_set_of_some hi)
    · rfl
    · rfl
  | opened n =>
    refine ⟨[.follow i .returned], n, ?_, h.unregistered hi, ?_, ?_⟩
    all_goals rw [List.foldl_cons, List.foldl_nil, step_follow _ hi]
    · exact List.mem_of_getElem? (getElem?_set_of_some hi)
    · rfl
    · rfl
  | opening =>
    have hi' := getElem?_set_of_some (b := (name, FollowPlace.opened s.opened)) hi
    refine ⟨[.follow i .returned, .follow i .returned], s.opened, ?_, fun hn =>
      Nat.lt_irrefl _ (h.registered hn), ?_, ?_⟩
    all_goals rw [List.foldl_cons, List.foldl_cons, List.foldl_nil, step_follow _ hi,
      step_follow _ hi']
    · exact List.mem_of_getElem? (getElem?_set_of_some hi')
    · rfl
    · rfl
  | _ => exact hmissed.elim

/-- A run in which the closers were collected came by a state in which that was the next step to stop. -/
theorem flagged_of_collected (events : List ThreadEvent) (h : (run globs events).HasCollected) :
    ∃ before after, events = before ++ .stop :: after ∧ (run globs before).stopper = .flagged := by
  induction events using List.reverseRecOn with
  | nil =>
    obtain ⟨_, h⟩ | h := h
    · cases h
    · cases h
  | append_singleton events e ih =>
    have hearlier (h : (run globs events).HasCollected) : ∃ before after,
        events ++ [e] = before ++ .stop :: after ∧ (run globs before).stopper = .flagged := by
      obtain ⟨before, after, rfl, hflagged⟩ := ih h
      exact ⟨before, after ++ [e], by simp, hflagged⟩
    unfold HasCollected at h
    rw [run_concat] at h
    obtain rfl | he := eq_or_ne e .stop
    · cases hs : (run globs events).stopper with
      | idle => simp [step, stopStep, hs] at h
      | flagged => exact ⟨events, [], rfl, hs⟩
      | closing closers => exact hearlier (.inl ⟨closers, hs⟩)
      | returned => exact hearlier (.inr hs)
    · rw [(step_frame globs he).2.1] at h
      exact hearlier h

/-- **What `stop` unblocks**: when `stop` has called the closers it collected, no thread is parked in a
read whose closer was not called, then and ever after, just if at the collection no thread was reading or
about to read a stream whose closer was not registered. -/
theorem stop_unblocks_iff (globs : List String) :
    (∀ before, (run globs before).stopper = .flagged →
      ((∀ after, (run globs (before ++ .stop :: after)).Closed →
          (run globs (before ++ .stop :: after)).Unblocked) ↔
        ∀ name place, (name, place) ∈ (run globs before).threads →
          ¬ (run globs before).Missed place)) ∧
    ∀ events, (run globs events).Closed →
      ∃ before after, events = before ++ .stop :: after ∧ (run globs before).stopper = .flagged := by
  refine ⟨fun before hflagged => ⟨fun h name place hmem hmissed => ?_, fun h after hclosed => ?_⟩,
    fun events hclosed => flagged_of_collected events (hclosed.imp_left fun h => ⟨[], h⟩)⟩
  · obtain ⟨i, hi⟩ := List.mem_iff_getElem?.mp hmem
    -- The thread is left alone until the closers were called.
    obtain ⟨stops, hstops⟩ : ∃ stops, run globs (before ++ .stop :: stops) = { run globs before with
        closed := (run globs before).closers.flatMap Closer.closes, stopper := .closing [] } := by
      refine ⟨List.replicate (run globs before).closers.length .stop, ?_⟩
      rw [run_append, List.foldl_cons, collect hflagged, call_closers rfl,
        closed_eq_nil before (.inr hflagged), List.nil_append]
    have hfresh : (run globs (before ++ .stop :: stops)).Fresh := .run _
    rw [hstops] at hfresh
    obtain ⟨events, n, hreading, hn, hstopper, hcalled⟩ := parks globs hfresh hi hmissed
    have hrun : run globs (before ++ .stop :: (stops ++ events)) = events.foldl (step globs)
        { run globs before with
          closed := (run globs before).closers.flatMap Closer.closes, stopper := .closing [] } := by
      rw [← hstops, ← run_append, List.append_assoc, List.cons_append]
    have hunblocked := h (stops ++ events)
    rw [hrun] at hunblocked
    have hmem := hunblocked (.inl hstopper) name n hreading
    rw [hcalled] at hmem
    exact hn (mem_closes hmem)
  · have hstopped : (run globs before).stopped = true := by
      refine stopped_of_ne_idle before fun hidle => ?_
      rw [hflagged] at hidle
      cases hidle
    rw [run_append, List.foldl_cons] at hclosed ⊢
    exact ((Stopping.collect hstopped hflagged h).foldl after).unblocked hclosed

/-- A scan finds one container, and its thread tests the flag. -/
def foundOne : List ThreadEvent :=
  [.scan none, .scan (some ["app"]), .scan none, .scan none, .scan (some []), .follow 0 .returned]

/-- The thread reads its stream, and the flag is set. -/
def stoppedReading : List ThreadEvent :=
  foundOne ++ [.follow 0 .returned, .follow 0 .returned, .stop]

theorem stop_unblocks_reader : (run ["*"] (stoppedReading ++ [.stop, .stop])).Closed ∧
    (run ["*"] (stoppedReading ++ [.stop, .stop])).Unblocked := by
  have hthreads : (run ["*"] stoppedReading).threads = [("app", .reading 0)] := by decide
  have hclosers : (run ["*"] stoppedReading).closers = [.of 0] := by decide
  have hclosed : (run ["*"] (stoppedReading ++ [.stop, .stop])).Closed := .inl (by decide)
  refine ⟨hclosed, ((stop_unblocks_iff ["*"]).1 stoppedReading (by decide)).mpr ?_ [.stop] hclosed⟩
  intro name place hmem hmissed
  rw [hthreads] at hmem
  cases List.mem_singleton.mp hmem
  apply hmissed
  rw [hclosers]
  exact List.mem_cons_self

/-- The thread waits for its stream while the flag is set and the closers are collected and called. -/
def stoppedOpening : List ThreadEvent :=
  foundOne ++ [.stop, .stop, .stop, .follow 0 .returned, .follow 0 .returned]

theorem not_stop_unblocks :
    ¬ ∀ globs events, (run globs events).Closed → (run globs events).Unblocked := by
  intro h
  have hthreads : (run ["*"] stoppedOpening).threads = [("app", .reading 0)] := by decide
  have hclosed : (run ["*"] stoppedOpening).closed = [] := by decide
  have hmem := h ["*"] stoppedOpening (.inl (by decide)) "app" 0 (hthreads ▸ List.mem_cons_self)
  rw [hclosed] at hmem
  cases hmem

end FollowerThreads

end KeelsonDocker
