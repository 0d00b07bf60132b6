import KeelsonDocker.Verify.OneFollower
import Mathlib.Algebra.GroupWithZero.Nat
import Mathlib.Algebra.Order.BigOperators.Group.List
import Mathlib.Data.Prod.Lex
import Mathlib.Order.OrderIsoNat

/-!
# What `stop` brings to an end

Once the flag is set every thread comes to its end, whatever the daemon answers and however the threads
take turns: the scan asks for one more listing at most and spawns what it names, a follower opens one more
stream at most and goes through one more frame of it, and all that is left in the end is a thread parked
in a read of a stream that was not closed (`stop_ends`).
-/

namespace KeelsonDocker

/-- How much a follower has ahead of it once the flag is set. -/
def FollowPlace.ahead : FollowPlace → Nat
  | .done => 0
  | .leaving => 1
  | .head | .raised | .tried => 2
  | .waiting | .flushing => 3
  | .asking | .arrived _ => 4
  | .reading _ => 5
  | .opened _ | .emitting _ => 6
  | .opening => 7

/-- How much the scan has; each name may need a thread, which has the test of the flag ahead of it. -/
def ScanPlace.ahead : ScanPlace → Nat
  | .done | .listing => 0
  | .head => 1
  | .waiting => 2
  | .choosing _ names => 3 + 4 * names.length
  | .listed names => 4 + 4 * names.length
  | .spawning _ _ names => 6 + 4 * names.length

def StopPlace.ahead : StopPlace → Nat
  | .closing closers => closers.length + 1
  | _ => 0

/-- What is still to be handed over: the closers, and the names of a listing. -/
def StopPlace.owes : StopPlace → Nat
  | .idle => 2
  | .flagged => 1
  | _ => 0

def ScanPlace.owes : ScanPlace → Nat
  | .listing => 1
  | _ => 0

namespace FollowerThreads

variable {globs : List String} {s s' : FollowerThreads} {name : String} {place : FollowPlace}
  {events : List ThreadEvent} {e : ThreadEvent}

def threadsAhead (threads : List (String × FollowPlace)) : Nat :=
  (threads.map fun thread => thread.2.ahead).sum

def rank (s : FollowerThreads) : Nat ×ₗ Nat :=
  toLex (s.stopper.owes + s.scan.owes, s.stopper.ahead + s.scan.ahead + threadsAhead s.threads)

/-- A step that changes something. -/
def Move (globs : List String) (s s' : FollowerThreads) : Prop :=
  ∃ e, s' = s.step globs e ∧ s' ≠ s

theorem threadsAhead_set {threads : List (String × FollowPlace)} {i : Nat} {place' : FollowPlace}
    (hi : threads[i]? = some (name, place)) (hlt : place'.ahead < place.ahead) :
    threadsAhead (threads.set i (name, place')) < threadsAhead threads := by
  induction threads generalizing i with
  | nil => cases hi
  | cons thread threads ih =>
    cases i with
    | zero =>
      cases hi
      simpa [threadsAhead] using hlt
    | succ i => simpa [threadsAhead] using ih hi

/-- Under the flag a follower comes closer to its end. -/
theorem followStep_ahead (hstopped : s.stopped = true) (name : String) (ending : CallEnd)
    (hlive : place ≠ .done) : (s.followStep name ending place).2.ahead < place.ahead := by
  cases place with
  | done => exact absurd rfl hlive
  | opening | reading | emitting | flushing | asking =>
    cases ending <;> simp [followStep, FollowPlace.ahead]
  | head | arrived | raised | tried => simp [followStep, hstopped, FollowPlace.ahead]
  | opened | waiting | leaving => simp [followStep, FollowPlace.ahead]

theorem rank_lt_of_owes (h : s'.stopper.owes + s'.scan.owes < s.stopper.owes + s.scan.owes) :
    s'.rank < s.rank :=
  Prod.Lex.toLex_lt_toLex.mpr (.inl h)

theorem rank_lt_of_ahead (howes : s'.stopper.owes + s'.scan.owes = s.stopper.owes + s.scan.owes)
    (h : s'.stopper.ahead + s'.scan.ahead + threadsAhead s'.threads <
      s.stopper.ahead + s.scan.ahead + threadsAhead s.threads) : s'.rank < s.rank :=
  Prod.Lex.toLex_lt_toLex.mpr (.inr ⟨howes, h⟩)

theorem stopStep_rank (hreturned : s.stopper ≠ .returned) : s.stopStep.rank < s.rank := by
  obtain ⟨hthreads, -, -, hscan⟩ := s.stopStep_frame
  cases hstopper : s.stopper with
  | returned => exact absurd hstopper hreturned
  | idle | flagged =>
    apply rank_lt_of_owes
    simp [stopStep, hstopper, StopPlace.owes]
  | closing closers =>
    apply rank_lt_of_ahead
    · cases closers <;> simp [stopStep, hstopper, StopPlace.owes, close]
    · rw [hthreads, hscan]
      cases closers <;> simp [stopStep, hstopper, StopPlace.ahead, close]

variable (globs) in
theorem scanStep_rank (hstopped : s.stopped = true) (listed : Option (List String))
    (hdone : s.scan ≠ .done) : (s.scanStep globs listed).rank < s.rank := by
  cases hscan : s.scan with
  | done => exact absurd hscan hdone
  | listing =>
    apply rank_lt_of_owes
    simp [scanStep, hscan, ScanPlace.owes]
  | head =>
    apply rank_lt_of_ahead <;> simp [scanStep, hscan, hstopped, ScanPlace.owes, ScanPlace.ahead]
  | listed names =>
    apply rank_lt_of_ahead <;> simp [scanStep, hscan, ScanPlace.owes, ScanPlace.ahead]
  | waiting =>
    apply rank_lt_of_ahead <;> simp [scanStep, hscan, ScanPlace.owes, ScanPlace.ahead]
  | choosing known names =>
    cases names with
    | nil => apply rank_lt_of_ahead <;> simp [scanStep, hscan, ScanPlace.owes, ScanPlace.ahead]
    | cons name names =>
      by_cases hknown : name ∈ known
      · apply rank_lt_of_ahead
        · simp [scanStep, hscan, hknown, ScanPlace.owes]
        · simp [scanStep, hscan, hknown, ScanPlace.ahead]
      · apply rank_lt_of_ahead
        · simp [scanStep, hscan, hknown, ScanPlace.owes]
        · simp [scanStep, hscan, hknown, ScanPlace.ahead]
          omega
  | spawning name known names =>
    cases listed with
    | none =>
      apply rank_lt_of_ahead
      · simp [scanStep, hscan, ScanPlace.owes]
      · simp only [scanStep, hscan, ScanPlace.ahead]
        omega
    | some _ =>
      apply rank_lt_of_ahead
      · simp [scanStep, hscan, ScanPlace.owes]
      · simp [scanStep, hscan, ScanPlace.ahead, threadsAhead, FollowPlace.ahead]
        omega

variable (globs) in
theorem followStep_rank {i : Nat} (hstopped : s.stopped = true) (ending : CallEnd)
    (hi : s.threads[i]? = some (name, place)) (hlive : place ≠ .done) :
    (s.step globs (.follow i ending)).rank < s.rank := by
  obtain ⟨-, hstopper, -, hscan⟩ := s.followStep_frame name place ending
  rw [step_follow ending hi]
  apply rank_lt_of_ahead
  · dsimp only
    rw [hstopper, hscan]
  · dsimp only
    rw [hstopper, hscan]
    have := threadsAhead_set hi (followStep_ahead hstopped name ending hlive)
    omega

/-- **Under the flag, whatever is done brings the end closer.** -/
theorem Move.rank_lt (hstopped : s.stopped = true) (h : Move globs s s') : s'.rank < s.rank := by
  obtain ⟨e, rfl, hne⟩ := h
  cases e with
  | stop =>
    refine stopStep_rank fun hreturned => hne ?_
    simp only [step, stopStep, hreturned]
  | scan listed =>
    refine scanStep_rank globs hstopped listed fun hdone => hne ?_
    simp only [step, scanStep, hdone]
  | follow i ending =>
    cases hi : s.threads[i]? with
    | none => exact absurd (step_follow_none ending hi) hne
    | some thread =>
      obtain ⟨name, place⟩ := thread
      refine followStep_rank globs hstopped ending hi fun hdone => hne ?_
      subst hdone
      obtain ⟨hlt, hget⟩ := List.getElem?_eq_some_iff.mp hi
      rw [step_follow ending hi]
      simp only [followStep]
      rw [← hget, List.set_getElem_self]

theorem Move.stopped (hstopped : s.stopped = true) (h : Move globs s s') : s'.stopped = true := by
  obtain ⟨e, rfl, -⟩ := h
  obtain rfl | he := eq_or_ne e .stop
  · show s.stopStep.stopped = true
    unfold stopStep
    split <;> first | rfl | exact hstopped
  · exact (step_frame globs he).1.trans hstopped

theorem acc_of_stopped (hstopped : s.stopped = true) : Acc (fun s' s => Move globs s s') s := by
  induction hrank : s.rank using WellFoundedLT.induction generalizing s with
  | ind rank ih =>
    subst hrank
    exact ⟨_, fun s' hmove => ih _ (hmove.rank_lt hstopped) (hmove.stopped hstopped) rfl⟩

/-! ### At rest -/

/-- Nothing is left to happen but that a read of a stream ends which was not closed. -/
def Resting (globs : List String) (s : FollowerThreads) : Prop :=
  ∀ e, s.step globs e = s ∨ ∃ i ending name n, e = .follow i ending ∧
    s.threads[i]? = some (name, .reading n) ∧ n ∉ s.closed

/-- A thread parked in the read of a stream that was not closed. -/
def Parked (s : FollowerThreads) (name : String) : Prop :=
  ∃ n, (name, .reading n) ∈ s.threads ∧ n ∉ s.closed

/-- What rest is. -/
structure AtRest (s : FollowerThreads) : Prop where
  stopper : s.stopper = .returned
  scan : s.scan = .done
  threads : ∀ name place, (name, place) ∈ s.threads → place = .done ∨ s.Parked name

theorem Resting.atRest (h : Resting globs s) (hstopped : s.stopped = true) : s.AtRest where
  stopper := by
    by_contra hreturned
    refine (stopStep_rank hreturned).ne ?_
    rcases h .stop with hsame | ⟨_, _, _, _, heq, _⟩
    · exact congrArg rank hsame
    · cases heq
  scan := by
    by_contra hdone
    refine (scanStep_rank globs hstopped none hdone).ne ?_
    rcases h (.scan none) with hsame | ⟨_, _, _, _, heq, _⟩
    · exact congrArg rank hsame
    · cases heq
  threads name place hmem := by
    obtain ⟨i, hi⟩ := List.mem_iff_getElem?.mp hmem
    by_contra hnot
    obtain ⟨hlive, hparked⟩ := not_or.mp hnot
    refine (followStep_rank globs hstopped .returned hi hlive).ne ?_
    rcases h (.follow i .returned) with hsame | ⟨_, _, _, n, heq, hi', hopen⟩
    · exact congrArg rank hsame
    · cases heq
      cases hi.symm.trans hi'
      exact absurd ⟨n, hmem, hopen⟩ hparked

/-- **What `stop` brings to an end**: everything, but reads of streams that were not closed. -/
theorem stop_ends (hstopped : (run globs events).stopped = true) :
    (¬ ∃ trace : Nat → FollowerThreads, trace 0 = run globs events ∧
      ∀ n, Move globs (trace n) (trace (n + 1))) ∧
    (Resting globs (run globs events) → (run globs events).AtRest ∧
      (UniqueNames events → StartsSucceed globs events →
        ∀ name, name ∈ (run globs events).followers.map Prod.fst ↔ (run globs events).Parked name)) := by
  constructor
  · rw [← not_acc_iff_exists_descending_chain (r := fun s' s => Move globs s s'), not_not]
    exact acc_of_stopped hstopped
  · intro hresting
    have hrest := hresting.atRest hstopped
    refine ⟨hrest, fun hunique hstarts name => ⟨fun hname => ?_, fun ⟨n, hmem, _⟩ => ?_⟩⟩
    · rcases owned_run hunique hstarts name hname with ⟨place, hmem, hlive⟩ | ⟨_, _, hspawning⟩
      · exact (hrest.threads name place hmem).resolve_left hlive
      · rw [hrest.scan] at hspawning
        cases hspawning
    · exact (Paired.run hunique).known hmem (by simp)

/-! ### A container that is there while `stop` is called -/

namespace Again

theorem stop_ends_round : (run ["*"] (round ++ [.stop])).stopped = true ∧
    (¬ ∃ trace : Nat → FollowerThreads, trace 0 = run ["*"] (round ++ [.stop]) ∧
      ∀ n, Move ["*"] (trace n) (trace (n + 1))) := by
  have hstopped : (run ["*"] (round ++ [.stop])).stopped = true := by decide +kernel
  exact ⟨hstopped, (stop_ends hstopped).1⟩

end Again

end FollowerThreads

end KeelsonDocker
