import KeelsonDocker.Verify.DropNotes
import Mathlib.Data.List.Induction
import Mathlib.Tactic.Linarith

/-!
# What the rate cap sheds

With a clock that never goes back, a line is refused only after as many lines as the cap allows were let
through in the second before it (`shedsOverload_of_steady`). The window of the limiter opens at a reading
of `time.time()`, so that a clock that was set back leaves a full window in force until it has caught up
(`not_shedsOverload_back`).
-/

namespace KeelsonDocker

theorem RateLimiter.maxLinesPerS_allow (limiter : RateLimiter) (now : ℚ) :
    (limiter.allow now).2.maxLinesPerS = limiter.maxLinesPerS := by
  unfold allow
  split
  · rfl
  · dsimp only
    split <;> split <;> rfl

/-- A use of the limiter of a follower. -/
inductive LimiterCall
  | allow (now : ℚ)
  | overflowNote

def LimiterCall.reading : LimiterCall → Option ℚ
  | allow now => some now
  | overflowNote => none

/-- A limiter, and the readings at which it let a line through. -/
structure Limited where
  limiter : RateLimiter
  accepted : List ℚ := []

namespace Limited

def next (run : Limited) : LimiterCall → Limited
  | .allow now => {
      limiter := (run.limiter.allow now).2
      accepted := if (run.limiter.allow now).1 then run.accepted ++ [now] else run.accepted }
  | .overflowNote => { run with limiter := run.limiter.overflowNote.2 }

def run (cap : Int) (calls : List LimiterCall) : Limited :=
  calls.foldl next { limiter := { maxLinesPerS := cap } }

theorem run_concat (cap : Int) (calls : List LimiterCall) (call : LimiterCall) :
    run cap (calls ++ [call]) = (run cap calls).next call := by
  rw [run, List.foldl_append]
  rfl

theorem maxLinesPerS_run (cap : Int) (calls : List LimiterCall) :
    (run cap calls).limiter.maxLinesPerS = cap := by
  induction calls using List.reverseRecOn with
  | nil => rfl
  | append_singleton calls call ih =>
    rw [run_concat]
    cases call with
    | overflowNote =>
      rw [next, RateLimiter.overflowNote_eq]
      exact ih
    | allow now => exact (RateLimiter.maxLinesPerS_allow _ now).trans ih

/-- The lines let through from one reading to another. -/
def between (run : Limited) (first last : ℚ) : Nat :=
  run.accepted.countP fun r => first ≤ r ∧ r ≤ last

end Limited

/-- A line is refused only if the cap's number of earlier ones was let through in the second up to it. -/
def ShedsOverload (cap : Int) (calls : List LimiterCall) : Prop :=
  ∀ earlier now later, calls = earlier ++ .allow now :: later →
    ((Limited.run cap earlier).limiter.allow now).1 = false →
    cap ≤ (Limited.run cap earlier).accepted.countP fun r => now - 1 < r ∧ r ≤ now

/-! ### The window -/

/-- By the reading `last`, the lines of the window were counted, and let through up to the cap. -/
structure Filling (cap : Int) (run : Limited) (last : ℚ) : Prop where
  maxLinesPerS : run.limiter.maxLinesPerS = cap
  window_le : run.limiter.window ≤ last
  counted : min run.limiter.count cap ≤ run.between run.limiter.window last

namespace Filling

variable {cap : Int} {run : Limited} {last now : ℚ}

theorem between_mono (run : Limited) {first last first' last' : ℚ} (hfirst : first' ≤ first)
    (hlast : last ≤ last') : run.between first last ≤ run.between first' last' := by
  apply List.countP_mono_left
  intro r _ h
  have h := of_decide_eq_true h
  exact decide_eq_true ⟨hfirst.trans h.1, h.2.trans hlast⟩

theorem overflowNote (h : Filling cap run last) : Filling cap (run.next .overflowNote) last := by
  rw [Limited.next, RateLimiter.overflowNote_eq]
  exact ⟨h.maxLinesPerS, h.window_le, h.counted⟩

/-- One line more, at the last reading of an interval. -/
theorem between_concat {limiter : RateLimiter} {first : ℚ} (h : first ≤ now) :
    Limited.between ⟨limiter, run.accepted ++ [now]⟩ first now = run.between first now + 1 := by
  simp [Limited.between, h]

theorem allow (h : Filling cap run last) (hcap : 1 ≤ cap) (hle : last ≤ now) :
    Filling cap (run.next (.allow now)) now := by
  obtain ⟨rfl, hwindow, hcounted⟩ := h
  have hgrown : run.between run.limiter.window last ≤ run.between run.limiter.window now :=
    between_mono run le_rfl hle
  rw [Limited.next, RateLimiter.allow_capped (by omega)]
  by_cases hopen : 1 ≤ now - run.limiter.window
  · rw [if_pos hopen]
    dsimp only
    rw [if_pos (decide_eq_true hcap)]
    refine ⟨rfl, le_rfl, ?_⟩
    rw [between_concat le_rfl]
    exact (min_le_left (1 : Int) _).trans (by omega)
  · rw [if_neg hopen]
    dsimp only
    by_cases hroom : run.limiter.count + 1 ≤ run.limiter.maxLinesPerS
    · rw [if_pos (decide_eq_true hroom)]
      refine ⟨rfl, hwindow.trans hle, ?_⟩
      rw [between_concat (hwindow.trans hle)]
      push_cast
      omega
    · have hfull : ¬ decide (run.limiter.count + 1 ≤ run.limiter.maxLinesPerS) = true := by
        simpa using hroom
      rw [if_neg hroom, if_neg hfull]
      refine ⟨rfl, hwindow.trans hle, ?_⟩
      change min (run.limiter.count + 1) run.limiter.maxLinesPerS ≤
        (run.between run.limiter.window now : Int)
      omega

/-- A line that is refused finds the window full, and the window is not a second old. -/
theorem of_refused (h : Filling cap run last) (hcap : 1 ≤ cap) (hle : last ≤ now)
    (hrefused : (run.limiter.allow now).1 = false) :
    cap ≤ run.accepted.countP fun r => now - 1 < r ∧ r ≤ now := by
  obtain ⟨rfl, hwindow, hcounted⟩ := h
  rw [RateLimiter.allow_capped (by omega)] at hrefused
  by_cases hopen : 1 ≤ now - run.limiter.window
  · rw [if_pos hopen] at hrefused
    exact absurd hcap (of_decide_eq_false hrefused)
  · rw [if_neg hopen] at hrefused
    have hfull := of_decide_eq_false hrefused
    have hmono : run.between run.limiter.window last ≤
        run.accepted.countP fun r => now - 1 < r ∧ r ≤ now := by
      apply List.countP_mono_left
      intro r _ hr
      have hr := of_decide_eq_true hr
      exact decide_eq_true ⟨by linarith, hr.2.trans hle⟩
    omega

end Filling

/-- The invariant along a run whose readings do not decrease. -/
theorem filling_run {cap : Int} (hcap : 1 ≤ cap) (calls : List LimiterCall)
    (hclock : (0 :: calls.filterMap LimiterCall.reading).Pairwise (· ≤ ·)) :
    ∃ last ∈ 0 :: calls.filterMap LimiterCall.reading, Filling cap (Limited.run cap calls) last := by
  induction calls using List.reverseRecOn with
  | nil => exact ⟨0, List.mem_singleton_self 0, rfl, le_rfl, min_le_left (0 : Int) cap⟩
  | append_singleton calls call ih =>
    rw [List.filterMap_append, ← List.cons_append, List.pairwise_append] at hclock
    obtain ⟨hcalls, -, hnow⟩ := hclock
    obtain ⟨last, hlast, hfilling⟩ := ih hcalls
    rw [Limited.run_concat, List.filterMap_append, ← List.cons_append]
    cases call with
    | overflowNote => exact ⟨last, List.mem_append_left _ hlast, hfilling.overflowNote⟩
    | allow now =>
      have hmem : now ∈ [LimiterCall.allow now].filterMap LimiterCall.reading :=
        List.mem_singleton_self now
      exact ⟨now, List.mem_append_right _ hmem, hfilling.allow hcap (hnow last hlast now hmem)⟩

/-- A clock that starts no earlier than the epoch and never goes back. -/
def Steady (calls : List LimiterCall) : Prop :=
  (0 :: calls.filterMap LimiterCall.reading).Pairwise (· ≤ ·)

theorem shedsOverload_of_steady {cap : Int} (hcap : 1 ≤ cap) {calls : List LimiterCall}
    (hclock : Steady calls) : ShedsOverload cap calls := by
  intro earlier now later hcalls hrefused
  unfold Steady at hclock
  rw [hcalls, List.filterMap_append, ← List.cons_append, List.pairwise_append] at hclock
  obtain ⟨hearlier, -, hnow⟩ := hclock
  obtain ⟨last, hlast, hfilling⟩ := filling_run hcap earlier hearlier
  exact hfilling.of_refused hcap (hnow last hlast now List.mem_cons_self) hrefused

/-! ### A clock that is set back -/

/-- A line that comes, in a full window, before every line let through so far is refused all the same. -/
theorem not_shedsOverload_of_back {cap : Int} (hcap : 1 ≤ cap) {calls : List LimiterCall} {now : ℚ}
    (hfull : cap ≤ (Limited.run cap calls).limiter.count)
    (hback : now < (Limited.run cap calls).limiter.window)
    (hbefore : ∀ r ∈ (Limited.run cap calls).accepted, now < r) :
    ¬ ShedsOverload cap (calls ++ [.allow now]) := by
  intro h
  have hmax := Limited.maxLinesPerS_run cap calls
  have hrefused : ((Limited.run cap calls).limiter.allow now).1 = false := by
    rw [RateLimiter.allow_capped (by omega), if_neg (by linarith)]
    apply decide_eq_false
    omega
  have hcount := h calls now [] rfl hrefused
  rw [List.countP_eq_zero.mpr] at hcount
  · omega
  · intro r hr
    simp [not_le.mpr (hbefore r hr)]

theorem shedsOverload_two : ShedsOverload 1 [.allow 100, .allow (201 / 2), .overflowNote, .allow 101] := by
  apply shedsOverload_of_steady le_rfl
  unfold Steady
  decide +kernel

theorem not_shedsOverload_back : ¬ ShedsOverload 1 [.allow 100, .allow 50] := by
  intro h
  have hnone := h [.allow 100] 50 [] rfl (by decide +kernel)
  exact absurd hnone (by decide +kernel)

end KeelsonDocker
